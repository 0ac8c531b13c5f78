import FilterQuery.Proofs.Refusal
import FilterQuery.Proofs.Slices

/-!
# Reading on demand

The lexemes of a text are read one by one as they are needed, and this shows only if there are not
lexemes up to the end. If there are, the tokens alone decide what the text is read as, and which
lexeme is refused if it is not read (`Stage.runAll_of_tokens`). If not, the error of the lexemes is
the outcome exactly if the tokens in front of it begin some accepted text
(`continuable_iff_walk`); otherwise one of those tokens is refused.
-/

namespace FilterQuery

theorem ofText_eq_runAll {text : String} (h : text ≠ "") :
    Query.ofText text =
      (Stage.start.runAll (Cursor.ofText text).deliver).map Sentence.query := by
  rw [Query.ofText, if_neg h, Sentence.ofText, Stage.read_eq_runAll]

namespace Stage

/-- Lexemes with the same tokens come to the same sentence, or the lexemes at the same place are
refused and the same is expected there. -/
theorem runAll_of_tokens {lexemes lexemes' : List Lexeme} {last last' : Lexeme}
    (h : lexemes.map Lexeme.token = lexemes'.map Lexeme.token) (hlast : last.token = last'.token)
    (stage : Stage) :
    (∃ s, stage.runAll ⟨lexemes, .ok last⟩ = .ok s ∧
      stage.runAll ⟨lexemes', .ok last'⟩ = .ok s) ∨
    ∃ (i : Nat) (l l' : Lexeme) (expected : Expectation),
      (lexemes ++ [last])[i]? = some l ∧ (lexemes' ++ [last'])[i]? = some l' ∧
      l.token = l'.token ∧
      stage.runAll ⟨lexemes, .ok last⟩ = .error (.grammatical ⟨l.position, expected, l.token⟩) ∧
      stage.runAll ⟨lexemes', .ok last'⟩ =
        .error (.grammatical ⟨l'.position, expected, l'.token⟩) := by
  induction lexemes generalizing lexemes' stage with
  | nil =>
    obtain rfl : lexemes' = [] := List.map_eq_nil_iff.1 h.symm
    rcases hf : stage.finish with expected | s
    · refine .inr ⟨0, last, last', expected, rfl, rfl, hlast, ?_, ?_⟩ <;>
        simp [runAll, run, close, hf, Except.mapError]
    · refine .inl ⟨s, ?_, ?_⟩ <;> simp [runAll, run, close, hf, Except.mapError]
  | cons l lexemes ih =>
    obtain ⟨l', rest', rfl, ht, hts⟩ := List.map_eq_cons_iff.1 h.symm
    simp only [runAll_cons, take, ht]
    rcases hs : stage.step l.token with expected | next
    · exact .inr ⟨0, l, l', expected, rfl, rfl, ht.symm, rfl, by rw [ht]⟩
    · rcases ih hts.symm next with ⟨s, hs⟩ | ⟨i, m, m', expected, hm, hm', hs⟩
      · exact .inl ⟨s, hs⟩
      · exact .inr ⟨i + 1, m, m', expected, hm, hm', hs⟩

/-- A lexeme that is refused is one of those that are read. -/
theorem exists_mem_of_run_eq_error {lexemes : List Lexeme} {stage : Stage} {e : SyntaxError}
    (h : stage.run lexemes = .error e) :
    ∃ l ∈ lexemes, e = ⟨l.position, e.expected, l.token⟩ := by
  induction lexemes generalizing stage with
  | nil => cases h
  | cons l lexemes ih =>
    rw [run] at h
    split at h
    · obtain ⟨m, hm, he⟩ := ih h
      exact ⟨m, List.mem_cons_of_mem l hm, he⟩
    · rename_i he
      cases h
      exact ⟨l, List.mem_cons_self, take_eq_error he⟩

end Stage

/-- The tokens begin those of a text that is accepted. -/
def Continuable (ts : List Token) : Prop :=
  ∃ text lexemes q, tokenize text = .ok lexemes ∧ Query.ofText text = .ok q ∧
    ts <+: lexemes.map Lexeme.token

theorem Stage.exists_walk_of_prefix {stage last : Stage} {ts us : List Token}
    (h : stage.walk us = .ok last) (hts : ts <+: us) : ∃ mid, stage.walk ts = .ok mid := by
  induction ts generalizing stage us with
  | nil => exact ⟨stage, rfl⟩
  | cons t ts ih =>
    obtain ⟨rest, rfl, hrest⟩ := List.cons_prefix_iff.1 hts
    obtain ⟨next, hs, hw⟩ := walk_cons_ok h
    obtain ⟨mid, hm⟩ := ih hw hrest
    exact ⟨mid, by rw [walk_cons_of_step hs, hm]⟩

theorem exists_walk_of_continuable {ts : List Token} (hts : ∀ t ∈ ts, t.IsWritable)
    (h : Continuable ts) : ∃ stage, Stage.walk .start ts = .ok stage := by
  obtain ⟨text, lexemes, q, htext, hq, hpre⟩ := h
  obtain ⟨last, hl, rfl⟩ := tokenize_eq_ok.1 htext
  rw [List.map_append, List.map_singleton, Cursor.token_ending_deliver _ hl,
    List.prefix_concat_iff] at hpre
  -- the end of input cannot be written
  have hpre : ts <+: (Cursor.ofText text).deliver.lexemes.map Lexeme.token :=
    hpre.resolve_left fun h => hts .endOfInput (by simp [h])
  by_cases hempty : text = ""
  · subst hempty
    have hd : (Cursor.ofText "").deliver = ⟨[], .ok ⟨.endOfInput, "", .start⟩⟩ :=
      Cursor.deliver_of_end rfl rfl
    rw [hd, List.map_nil, List.prefix_nil] at hpre
    exact ⟨.start, by rw [hpre]; rfl⟩
  · obtain ⟨s, hs, -⟩ := (ofText_eq_ok_iff_sentence hempty).1 hq
    rw [Sentence.ofText, Stage.read_eq_runAll, Stage.runAll_eq_ok] at hs
    obtain ⟨next, -, hw, -⟩ := hs
    exact Stage.exists_walk_of_prefix hw hpre

theorem continuable_of_walk {ts : List Token} (hts : ∀ t ∈ ts, t.IsWritable) {stage : Stage}
    (hw : Stage.walk .start ts = .ok stage) : Continuable ts := by
  obtain ⟨last, s, hlast, hfinish⟩ := stage.walk_completion
  have hall : Stage.walk .start (ts ++ stage.completion) = .ok last := by
    rw [Stage.walk_append_of_walk hw, hlast]
  obtain ⟨hs, hm⟩ := Stage.reaches_iff.1 ⟨last, hall, hfinish⟩
  have hwritable : ∀ t ∈ s.tokens, t.IsWritable := by
    rw [hs]
    exact List.forall_mem_append.2 ⟨hts, stage.isWritable_completion⟩
  obtain ⟨cs, hcs, -⟩ := exists_written fun t ht => (hwritable t ht).exists_spells
  have hder := Sentence.derives_of_written hcs hwritable
  obtain ⟨lexemes, htext, htokens⟩ := id hder
  refine ⟨_, lexemes, s.query, htext, ?_, ?_⟩
  · rw [ofText_eq_ok_iff_sentence (Sentence.ne_empty_of_derives hder)]
    exact ⟨s, Sentence.ofText_eq_ok_iff.2 ⟨hder, hs ▸ hm⟩, rfl⟩
  · rw [htokens, hs, List.append_assoc]
    exact List.prefix_append _ _

/-- Tokens begin an accepted text exactly if all of them are taken. -/
theorem continuable_iff_walk {ts : List Token} (hts : ∀ t ∈ ts, t.IsWritable) :
    Continuable ts ↔ ∃ stage, Stage.walk .start ts = .ok stage :=
  ⟨exists_walk_of_continuable hts, fun ⟨_, hw⟩ => continuable_of_walk hts hw⟩

/-- An error is not reported in front of what has been passed. -/
theorem Cursor.offset_le_of_next_error {c after : Cursor} {e : LexError}
    (h : c.next = (.error e, after)) : c.position.offset ≤ e.position.offset := by
  have hskip : c.position.offset ≤ c.skip.position.offset := by
    rw [skip, Position.offset_advance]
    exact Nat.le_add_right _ _
  have hafter : c.skip.position.offset ≤ c.next.2.position.offset := by
    rw [next_snd, behind, Position.offset_advance]
    exact Nat.le_add_right _ _
  rw [(outcome_of_next_error (congrArg Prod.fst h)).2]
  cases e.fault with
  | invalidCharacter => exact hskip.trans hafter
  | unterminatedString | malformedNumber => exact hskip

/-- Both texts ask for the same, or in both the lexeme with the same number is refused and the same
is expected in its place. -/
def ReadAlike (text other : String) (lexemes others : List Lexeme) : Prop :=
  (∃ q, Query.ofText text = .ok q ∧ Query.ofText other = .ok q) ∨
  ∃ (i : Nat) (l m : Lexeme) (expected : Expectation),
    lexemes[i]? = some l ∧ others[i]? = some m ∧ l.token = m.token ∧
    Query.ofText text = .error (.grammatical ⟨l.position, expected, l.token⟩) ∧
    Query.ofText other = .error (.grammatical ⟨m.position, expected, m.token⟩)

theorem readAlike_of_tokens {text other : String} (h : text ≠ "") (ho : other ≠ "")
    {lexemes others : List Lexeme} (ht : tokenize text = .ok lexemes)
    (hto : tokenize other = .ok others)
    (heq : lexemes.map Lexeme.token = others.map Lexeme.token) :
    ReadAlike text other lexemes others := by
  obtain ⟨last, hl, rfl⟩ := tokenize_eq_ok.1 ht
  obtain ⟨last', hl', rfl⟩ := tokenize_eq_ok.1 hto
  simp only [List.map_append, List.map_singleton] at heq
  obtain ⟨htokens, hlast⟩ := List.append_inj' heq rfl
  have hd : (Cursor.ofText text).deliver = ⟨(Cursor.ofText text).deliver.lexemes, .ok last⟩ := by
    rw [← hl]
  have hd' : (Cursor.ofText other).deliver =
      ⟨(Cursor.ofText other).deliver.lexemes, .ok last'⟩ := by
    rw [← hl']
  rw [ReadAlike, ofText_eq_runAll h, ofText_eq_runAll ho, hd, hd']
  rcases Stage.runAll_of_tokens htokens (List.cons.inj hlast).1 .start with
    ⟨s, hs, hs'⟩ | ⟨i, l, m, expected, hi, hi', hlm, hs, hs'⟩
  · exact .inl ⟨s.query, by rw [hs]; rfl, by rw [hs']; rfl⟩
  · exact .inr ⟨i, l, m, expected, hi, hi', hlm, by rw [hs]; rfl, by rw [hs']; rfl⟩

theorem ofText_of_tokenize_error {text : String} (h : text ≠ "") {e : LexError}
    (he : tokenize text = .error e) :
    (Continuable ((Cursor.ofText text).deliver.lexemes.map Lexeme.token) ∧
      Query.ofText text = .error (.lexical e)) ∨
    (¬ Continuable ((Cursor.ofText text).deliver.lexemes.map Lexeme.token) ∧
      ∃ l ∈ (Cursor.ofText text).deliver.lexemes, ∃ expected,
        Query.ofText text = .error (.grammatical ⟨l.position, expected, l.token⟩) ∧
        l.position.offset < e.position.offset) := by
  have hending := tokenize_eq_error.1 he
  have hwritable : ∀ t ∈ (Cursor.ofText text).deliver.lexemes.map Lexeme.token, t.IsWritable :=
    List.forall_mem_map.2 (Cursor.isWritable_deliver _)
  rw [continuable_iff_walk hwritable, ofText_eq_runAll h, Stage.runAll, hending]
  rcases hrun : Stage.start.run (Cursor.ofText text).deliver.lexemes with f | stage
  · obtain ⟨l, hl, hf⟩ := Stage.exists_mem_of_run_eq_error hrun
    refine .inr ⟨fun ⟨stage, hw⟩ => ?_, l, hl, f.expected, by rw [← hf]; rfl, ?_⟩
    · rw [Stage.run_eq_ok.2 hw] at hrun
      cases hrun
    · obtain ⟨d, hp, hd⟩ := (Cursor.ofText text).exists_passes_deliver
      have hbehind := Cursor.offset_le_of_next_error (Prod.ext (hd.trans hending) rfl)
      have hin := (hp.ordered.2.1 l hl).2
      omega
  · exact .inl ⟨⟨stage, Stage.run_eq_ok.1 hrun⟩, rfl⟩

/-- A text whose lexemes go on to the end is read as its tokens alone decide: another text with
these tokens asks for the same, or of both the lexeme with the same number is refused and the same
is expected there. If the lexemes end with an error, that is the outcome if the tokens in front of
it begin an accepted text; otherwise one of the lexemes in front of it is refused. -/
theorem ofText_of_tokenize {text : String} (h : text ≠ "") :
    (∀ lexemes, tokenize text = .ok lexemes →
      (∀ e, Query.ofText text ≠ .error (.lexical e)) ∧
      ∀ other, other ≠ "" → ∀ others, tokenize other = .ok others →
        lexemes.map Lexeme.token = others.map Lexeme.token →
          ReadAlike text other lexemes others) ∧
    ∀ e, tokenize text = .error e →
      (Continuable ((Cursor.ofText text).deliver.lexemes.map Lexeme.token) →
        Query.ofText text = .error (.lexical e)) ∧
      (¬Continuable ((Cursor.ofText text).deliver.lexemes.map Lexeme.token) →
        ∃ l ∈ (Cursor.ofText text).deliver.lexemes, ∃ expected,
          Query.ofText text = .error (.grammatical ⟨l.position, expected, l.token⟩) ∧
          l.position.offset < e.position.offset) := by
  refine ⟨fun lexemes ht => ⟨fun e he => ?_, fun other ho others hto =>
    readAlike_of_tokens h ho ht hto⟩, fun e he => ?_⟩
  · rcases readAlike_of_tokens h h ht ht rfl with ⟨q, hq, -⟩ | ⟨_, _, _, _, -, -, -, hs, -⟩
    · rw [he] at hq
      cases hq
    · rw [he] at hs
      cases hs
  · rcases ofText_of_tokenize_error h he with ⟨hc, hq⟩ | ⟨hc, hl⟩
    · exact ⟨fun _ => hq, fun hn => absurd hc hn⟩
    · exact ⟨fun hn => absurd hn hc, fun _ => hl⟩

theorem ofText_of_tokenize_samples :
    ("a #" ≠ "" ∧ tokenize "a #" = .error ⟨⟨2, 1, 3⟩, .invalidCharacter '#'⟩ ∧
      Continuable [.identifier "a"] ∧
      Query.ofText "a #" = .error (.lexical ⟨⟨2, 1, 3⟩, .invalidCharacter '#'⟩)) ∧
    "a=1" ≠ "" ∧ "a = 01" ≠ "" ∧ ∃ lexemes others,
      tokenize "a=1" = .ok lexemes ∧ tokenize "a = 01" = .ok others ∧
      lexemes.map Lexeme.token = others.map Lexeme.token ∧
      ReadAlike "a=1" "a = 01" lexemes others := by
  constructor
  · have hne : "a #" ≠ "" := by decide
    have hp : (Cursor.ofText "a #").Passes [⟨.identifier "a", "a", .start⟩]
        ⟨[' ', '#'], ⟨1, 1, 2⟩⟩ := .cons rfl nofun (.nil _)
    have hd : (Cursor.ofText "a #").deliver =
        ⟨[⟨.identifier "a", "a", .start⟩], .error ⟨⟨2, 1, 3⟩, .invalidCharacter '#'⟩⟩ := by
      rw [Cursor.deliver_of_passes hp, Cursor.deliver_of_error rfl]
      rfl
    have he := tokenize_eq_error.2 (congrArg Delivery.ending hd)
    have hc : Continuable [.identifier "a"] := (continuable_iff_walk (by decide)).2 ⟨_, rfl⟩
    exact ⟨hne, he, hc, ((ofText_of_tokenize hne).2 _ he).1 (hd ▸ hc)⟩
  · have hne : "a=1" ≠ "" := by decide
    have ho : "a = 01" ≠ "" := by decide
    have ht := @tokenize_of_passes "a=1" _ ⟨[], _⟩
      (.cons rfl nofun (.cons rfl nofun (.cons rfl nofun (.nil _)))) (by simp)
    have hto := @tokenize_of_passes "a = 01" _ ⟨[], _⟩
      (.cons rfl nofun (.cons rfl nofun (.cons rfl nofun (.nil _)))) (by simp)
    exact ⟨hne, ho, _, _, ht, hto, rfl, ((ofText_of_tokenize hne).1 _ ht).2 _ ho _ hto rfl⟩

end FilterQuery
