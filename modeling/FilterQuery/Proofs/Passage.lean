import FilterQuery.Lexeme.Cursor
import FilterQuery.Proofs.Boundary
import FilterQuery.Proofs.Walk
import FilterQuery.Sentence.Reading

/-!
# Passages of a text

A cursor passes lexemes if reading them one after the other leads from it to another cursor. The
text that is passed does not depend on what stands behind it, as long as that would not be read
along with the last lexeme (`Passes.again`), and what has been passed takes a stage as far as its
tokens do (`read_of_passes`).
-/

namespace FilterQuery

namespace Cursor

theorem next_of_scan {blanks word rest : List Char} {t : Token} (p : Position)
    (hb : ∀ c ∈ blanks, isBlank c = true) (hs : scan (word ++ rest) = ⟨.ok t, word, rest⟩)
    (ht : t ≠ .endOfInput) : next ⟨blanks ++ (word ++ rest), p⟩ =
      (.ok ⟨t, String.ofList word, p.advance blanks⟩, ⟨rest, p.advance (blanks ++ word)⟩) := by
  have hhead : ∀ c ∈ (word ++ rest).head?, isBlank c = false := by
    intro c hc
    obtain ⟨cs, hcs⟩ := List.head?_eq_some_iff.1 hc
    exact @not_isBlank_of_scan c cs t (by rw [← hcs, hs]) ht
  have hskip : skip ⟨blanks ++ (word ++ rest), p⟩ = ⟨word ++ rest, p.advance blanks⟩ := by
    have htake : (word ++ rest).takeWhile isBlank = [] ∧
        (word ++ rest).dropWhile isBlank = word ++ rest := by
      rcases h : word ++ rest with _ | ⟨c, cs⟩
      · exact ⟨rfl, rfl⟩
      · have hc := hhead c (by rw [h]; rfl)
        simp [hc]
    rw [skip, skipBlanks, List.takeWhile_append_of_pos hb, List.dropWhile_append_of_pos hb,
      htake.1, htake.2, List.append_nil]
  rw [next, hskip]
  simp only [hs, behind]
  rw [Position.advance_append]

variable {c d after : Cursor} {lexeme : Lexeme} {lexemes : List Lexeme}

theorem next_eq_ok (h : c.next = (.ok lexeme, after)) (ht : lexeme.token ≠ .endOfInput) :
    ∃ blanks word, c.rest = blanks ++ (word ++ after.rest) ∧
      (∀ x ∈ blanks, isBlank x = true) ∧ word ≠ [] ∧
      scan (word ++ after.rest) = ⟨.ok lexeme.token, word, after.rest⟩ ∧
      lexeme = ⟨lexeme.token, String.ofList word, c.position.advance blanks⟩ ∧
      after.position = c.position.advance (blanks ++ word) := by
  obtain ⟨hs, hl⟩ := outcome_of_next_ok (congrArg Prod.fst h)
  have hafter : after = c.skip.behind (scan c.skip.rest) := by rw [← next_snd, h]
  have hsplit : (scan c.skip.rest).text ++ after.rest = c.skip.rest := by
    rw [hafter, behind, text_append_rest_scan]
  refine ⟨c.rest.takeWhile isBlank, (scan c.skip.rest).text, ?_,
    fun x hx => List.mem_takeWhile_imp hx, text_scan_ne_nil hs ht, ?_, hl, ?_⟩
  · rw [hsplit, ← c.rest_eq]
  · rw [hsplit, hafter, behind, ← hs]
  · rw [hafter, Position.advance_append]
    rfl

theorem next_blanks {blanks : List Char} (p : Position) (hb : ∀ c ∈ blanks, isBlank c = true) :
    next ⟨blanks, p⟩ = (.ok ⟨.endOfInput, "", p.advance blanks⟩, ⟨[], p.advance blanks⟩) := by
  have hskip : skip ⟨blanks, p⟩ = ⟨[], p.advance blanks⟩ := by
    rw [skip, skipBlanks, List.takeWhile_eq_self_iff.2 hb, List.dropWhile_eq_nil_iff.2 hb]
  rw [next, hskip]
  rfl

theorem next_eq_end (h : c.next = (.ok lexeme, after)) (ht : lexeme.token = .endOfInput) :
    (∀ x ∈ c.rest, isBlank x = true) ∧
      lexeme = ⟨.endOfInput, "", c.position.advance c.rest⟩ := by
  have hskip : c.skip.rest = [] :=
    eq_nil_of_scan (ht ▸ (outcome_of_next_ok (congrArg Prod.fst h)).1)
  have hb : ∀ x ∈ c.rest, isBlank x = true := List.dropWhile_eq_nil_iff.1 hskip
  have hn : c.next = _ := next_blanks c.position hb
  rw [h] at hn
  exact ⟨hb, Except.ok.inj (congrArg Prod.fst hn)⟩

/-- Reading from the first cursor brings the lexemes, none of them the end of the input, and leads
to the second. -/
inductive Passes : Cursor → List Lexeme → Cursor → Prop
  | nil (c : Cursor) : Passes c [] c
  | cons {c mid d : Cursor} {lexeme : Lexeme} {lexemes : List Lexeme}
    (h : c.next = (.ok lexeme, mid)) (ht : lexeme.token ≠ .endOfInput)
    (hp : Passes mid lexemes d) : Passes c (lexeme :: lexemes) d

theorem Passes.snoc (hp : Passes c lexemes d) (h : d.next = (.ok lexeme, after))
    (ht : lexeme.token ≠ .endOfInput) : Passes c (lexemes ++ [lexeme]) after := by
  induction hp with
  | nil c => exact .cons h ht (.nil after)
  | cons hn hl _ ih => exact .cons hn hl (ih h)

theorem Passes.eq_snoc {c : Cursor} : ∀ {lexemes : List Lexeme},
    Passes c (lexemes ++ [lexeme]) after →
      ∃ d, Passes c lexemes d ∧ d.next = (.ok lexeme, after) ∧ lexeme.token ≠ .endOfInput
  | [], .cons h ht (.nil _) => ⟨c, .nil c, h, ht⟩
  | _ :: _, .cons h ht hp => by
    obtain ⟨d, hd, hn, hl⟩ := hp.eq_snoc
    exact ⟨d, .cons h ht hd, hn, hl⟩

theorem deliver_of_passes (hp : Passes c lexemes d) :
    c.deliver = ⟨lexemes ++ d.deliver.lexemes, d.deliver.ending⟩ := by
  induction hp with
  | nil c => rfl
  | cons h ht _ ih => rw [deliver_of_ok h ht, ih, List.cons_append]

/-- The text that has been passed, and that it is passed again in front of anything that would not
be read along with its last lexeme. -/
theorem Passes.again (hp : Passes c lexemes d) :
    ∃ text, c.rest = text ++ d.rest ∧ d.position = c.position.advance text ∧
      (text = [] → lexemes = []) ∧ ∀ r,
        (∀ l ∈ lexemes.getLast?, ∀ x ∈ r.head?, l.token.gluesTo x = false) →
          Passes ⟨text ++ r, c.position⟩ lexemes ⟨r, d.position⟩ := by
  induction hp with
  | nil c => exact ⟨[], rfl, rfl, fun _ => rfl, fun r _ => .nil _⟩
  | @cons c mid d lexeme lexemes h ht hp ih =>
    obtain ⟨text, hrest, hpos, hnil, hagain⟩ := ih
    obtain ⟨blanks, word, hc, hb, hw, hs, hl, hmid⟩ := next_eq_ok h ht
    refine ⟨blanks ++ (word ++ text), ?_, ?_, ?_, fun r hr => ?_⟩
    · simp [hc, hrest]
    · rw [hpos, hmid, ← Position.advance_append, List.append_assoc]
    · intro hn
      exact absurd (List.append_eq_nil_iff.1 (List.append_eq_nil_iff.1 hn).2).1 hw
    · -- what now stands behind the first lexeme begins like what stood there before
      have hglue : ∀ x ∈ (text ++ r).head?, lexeme.token.gluesTo x = false := by
        cases text with
        | nil =>
          rw [hnil rfl] at hr
          exact hr lexeme rfl
        | cons y ys =>
          intro x hx
          refine not_glued_scan hs ht x ?_
          rw [hrest]
          exact hx
      have hnext := next_of_scan c.position hb (scan_append hs ht hglue) ht
      rw [← hl, ← hmid] at hnext
      have hlast : ∀ l ∈ lexemes.getLast?, ∀ x ∈ r.head?, l.token.gluesTo x = false := by
        intro l hm
        refine hr l ?_
        rw [List.getLast?_cons, Option.mem_def.1 hm]
        rfl
      simp only [List.append_assoc]
      exact .cons hnext ht (hagain r hlast)

end Cursor

namespace Stage

/-- Reading goes through what is passed as a walk goes through its tokens. -/
theorem read_of_passes {c d : Cursor} {lexemes : List Lexeme} (hp : c.Passes lexemes d)
    {stage next : Stage} (hw : stage.walk (lexemes.map Lexeme.token) = .ok next) :
    stage.read c = next.read d := by
  induction hp generalizing stage with
  | nil c =>
    cases hw
    rfl
  | cons h ht _ ih =>
    obtain ⟨mid, hs, hw⟩ := walk_cons_ok hw
    rw [read]
    split <;> rename_i h' <;> rw [h] at h' <;> cases h'
    rw [dif_neg ht]
    simp only [take, hs]
    exact ih hw

theorem read_eq_grammatical {stage : Stage} {c : Cursor} {e : SyntaxError}
    (h : stage.read c = .error (.grammatical e)) :
    ∃ lexemes d next lexeme after, c.Passes lexemes d ∧
      stage.walk (lexemes.map Lexeme.token) = .ok next ∧ d.next = (.ok lexeme, after) ∧
        if lexeme.token = .endOfInput then next.close lexeme = .error e
        else next.take lexeme = .error e := by
  fun_induction read stage c with
  | case1 => cases h
  | case2 stage c lexeme after hn ht =>
    refine ⟨[], c, stage, lexeme, after, .nil c, rfl, hn, ?_⟩
    rw [if_pos ht]
    cases hc : stage.close lexeme with
    | ok s => simp [hc, Except.mapError] at h
    | error f => simpa [hc, Except.mapError] using h
  | case3 stage c lexeme after hn ht f hf =>
    cases h
    exact ⟨[], c, stage, lexeme, after, .nil c, rfl, hn, by rw [if_neg ht, hf]⟩
  | case4 stage c lexeme after hn ht mid hm _ ih =>
    obtain ⟨lexemes, d, next, last, behind, hp, hw, hl⟩ := ih h
    refine ⟨lexeme :: lexemes, d, next, last, behind, .cons hn ht hp, ?_, hl⟩
    unfold take at hm
    split at hm
    · cases hm
      rw [List.map_cons, walk_cons_of_step ‹_›]
      exact hw
    · cases hm

end Stage

end FilterQuery
