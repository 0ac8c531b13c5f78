import FilterQuery.Proofs.Acceptance
import FilterQuery.Proofs.Passage
import FilterQuery.Proofs.Spelling

/-!
# Writing tokens one after the other

Tokens are written with blanks or nothing between them, as long as no token is read along with the
one in front of it. Reading what is written brings the tokens back (`Written.passes`), so a sentence
derives whatever writes its tokens (`derives_of_written`), and with a blank in front of each token
any tokens can be written that have texts (`exists_written`).
-/

namespace FilterQuery

/-- The texts that write a list of tokens. -/
inductive Written : List Token → List Char → Prop
  | nil {blanks : List Char} (hb : ∀ c ∈ blanks, isBlank c = true) : Written [] blanks
  | cons {blanks word cs : List Char} {t : Token} {ts : List Token}
    (hb : ∀ c ∈ blanks, isBlank c = true) (hs : t.Spells word)
    (hg : ∀ c ∈ cs.head?, t.gluesTo c = false) (h : Written ts cs) :
    Written (t :: ts) (blanks ++ (word ++ cs))

theorem Written.append_blanks {ts : List Token} {cs blanks : List Char} (h : Written ts cs)
    (hb : ∀ c ∈ blanks, isBlank c = true) : Written ts (blanks ++ cs) := by
  have happ : ∀ more : List Char, (∀ c ∈ more, isBlank c = true) →
      ∀ c ∈ blanks ++ more, isBlank c = true := fun more hm c hc =>
    (List.mem_append.1 hc).elim (hb c) (hm c)
  cases h with
  | nil hm => exact .nil (happ _ hm)
  | cons hm hs hg h =>
    rw [← List.append_assoc]
    exact .cons (happ _ hm) hs hg h

/-- What is read can be written. -/
theorem Cursor.isWritable_deliver (c : Cursor) :
    ∀ lexeme ∈ c.deliver.lexemes, lexeme.token.IsWritable := by
  fun_induction deliver c with
  | case1 => simp
  | case2 => simp
  | case3 c lexeme after h ht _ _ ih =>
    have hl : lexeme.token.IsWritable := by
      obtain ⟨-, word, -, -, -, hs, -, -⟩ := next_eq_ok h ht
      exact isWritable_scan (congrArg Scan.outcome hs) ht
    simpa using ⟨hl, ih⟩

/-- What is written is read, up to the blanks at the end. -/
theorem Written.passes {ts : List Token} {cs : List Char} (h : Written ts cs)
    (ht : ∀ t ∈ ts, t.IsWritable) (p : Position) :
    ∃ lexemes blanks q, lexemes.map Lexeme.token = ts ∧ (∀ c ∈ blanks, isBlank c = true) ∧
      Cursor.Passes ⟨cs, p⟩ lexemes ⟨blanks, q⟩ := by
  induction h generalizing p with
  | @nil blanks hb => exact ⟨[], blanks, p, rfl, hb, .nil _⟩
  | @cons blanks word cs t ts hb hs hg _ ih =>
    have hw : t.IsWritable := ht t List.mem_cons_self
    obtain ⟨lexemes, after, q, hl, ha, hp⟩ :=
      ih (fun u hu => ht u (List.mem_cons_of_mem t hu)) (p.advance (blanks ++ word))
    have hscan := scan_append_of_spells hw hs hg
    have hnext := Cursor.next_of_scan p hb hscan hw.ne_endOfInput
    refine ⟨⟨t, String.ofList word, p.advance blanks⟩ :: lexemes, after, q, ?_, ha,
      .cons hnext hw.ne_endOfInput hp⟩
    rw [List.map_cons, hl]

theorem Sentence.derives_of_written {s : Sentence} {cs : List Char} (h : Written s.tokens cs)
    (ht : ∀ t ∈ s.tokens, t.IsWritable) : s.Derives (String.ofList cs) := by
  obtain ⟨lexemes, blanks, q, hl, hb, hp⟩ := h.passes ht .start
  have hend := Cursor.deliver_of_end (Cursor.next_blanks q hb) rfl
  have hd : (Cursor.ofText (String.ofList cs)).deliver =
      ⟨lexemes, .ok ⟨.endOfInput, "", q.advance blanks⟩⟩ := by
    rw [Cursor.ofText, String.toList_ofList, Cursor.deliver_of_passes hp, hend, List.append_nil]
  exact derives_iff.2 ⟨_, congrArg Delivery.ending hd, by rw [hd, hl]⟩

/-- Reading comes to a sentence if what it passes up to the end does. -/
theorem Stage.read_eq_ok_of_passes {stage last : Stage} {s : Sentence} {c : Cursor}
    {lexemes : List Lexeme} {blanks : List Char} {q : Position}
    (hp : c.Passes lexemes ⟨blanks, q⟩) (hb : ∀ x ∈ blanks, isBlank x = true)
    (hw : stage.walk (lexemes.map Lexeme.token) = .ok last) (hf : last.finish = .ok s) :
    stage.read c = .ok s := by
  rw [read_of_passes hp hw, read_eq_runAll, Cursor.deliver_of_end (Cursor.next_blanks q hb) rfl,
    runAll_eq_ok]
  exact ⟨last, _, rfl, rfl, hf⟩

theorem exists_written : ∀ {ts : List Token}, (∀ t ∈ ts, ∃ word, t.Spells word) →
    ∃ cs, Written ts cs ∧ ∀ c ∈ cs.head?, isBlank c = true
  | [], _ => ⟨[], .nil (by simp), by simp⟩
  | t :: ts, h => by
    obtain ⟨word, hs⟩ := h t List.mem_cons_self
    obtain ⟨cs, hw, hb⟩ := exists_written fun u hu => h u (List.mem_cons_of_mem t hu)
    have hg : ∀ c ∈ cs.head?, t.gluesTo c = false := fun c hc => not_gluesTo_of_isBlank (hb c hc) t
    have hspace : ∀ c ∈ [' '], isBlank c = true := fun c hc => by
      rw [List.mem_singleton.1 hc]
      decide
    exact ⟨_, .cons hspace hs hg hw, by simp [hspace]⟩

end FilterQuery
