import FilterQuery.Proofs.Denotation
import FilterQuery.Proofs.Nesting
import FilterQuery.Sentence.Reading

/-!
# The texts that are accepted

A sentence derives a text if the tokens of the text are its own. Reading finds a sentence exactly
if it derives the text and its groups keep to the limit (`Sentence.ofText_eq_ok_iff`), and since a
reading has one outcome, a text that is accepted has one derivation. So the accepted texts are the
empty one and those with a derivation, each with the query that its derivation denotes
(`accepts_iff_derives`).
-/

namespace FilterQuery

/-- The tokens of the text are those of the sentence, with the end of input behind them. -/
def Sentence.Derives (s : Sentence) (text : String) : Prop :=
  ∃ lexemes, tokenize text = .ok lexemes ∧
    lexemes.map Lexeme.token = s.tokens ++ [.endOfInput]

theorem Cursor.token_ending_deliver (c : Cursor) {last : Lexeme} (h : c.deliver.ending = .ok last) :
    last.token = .endOfInput := by
  fun_induction deliver c with
  | case1 => cases h
  | case2 => cases h; assumption
  | case3 _ _ _ _ _ _ _ ih => exact ih h

namespace Stage

theorem close_eq_ok {stage : Stage} {last : Lexeme} {s : Sentence} :
    stage.close last = .ok s ↔ stage.finish = .ok s := by
  unfold close
  cases stage.finish <;> simp

theorem run_eq_ok : ∀ {lexemes : List Lexeme} {stage next : Stage},
    stage.run lexemes = .ok next ↔ stage.walk (lexemes.map Lexeme.token) = .ok next
  | [], stage, next => by simp [run, walk]
  | lexeme :: rest, stage, next => by
    rw [run, List.map_cons, walk, take]
    cases stage.step lexeme.token with
    | error e => simp
    | ok mid => exact run_eq_ok

theorem runAll_eq_ok {stage : Stage} {d : Delivery} {s : Sentence} :
    stage.runAll d = .ok s ↔ ∃ next last, stage.walk (d.lexemes.map Lexeme.token) = .ok next ∧
      d.ending = .ok last ∧ next.finish = .ok s := by
  unfold runAll
  rcases hr : stage.run d.lexemes with e | next
  · have hw : ∀ next, stage.walk (d.lexemes.map Lexeme.token) ≠ .ok next := by
      intro next h
      rw [run_eq_ok.2 h] at hr
      cases hr
    simp [hw]
  · rcases hd : d.ending with e | last
    · simp
    · have hc : (next.close last).mapError ParseError.grammatical = .ok s ↔
          next.finish = .ok s := by
        rw [← @close_eq_ok next last s]
        cases next.close last <;> simp [Except.mapError]
      simp [run_eq_ok.1 hr, hc]

end Stage

theorem Sentence.tokens_ne_nil (s : Sentence) : s.tokens ≠ [] := by
  cases s with
  | filter d =>
    obtain ⟨t, ts, h, -⟩ := d.tokens_eq_cons
    simp [tokens, h]
  | order terms => simp [tokens, Run.orderTokens]
  | both d terms => simp [tokens, Run.orderTokens]

variable {text : String} {s : Sentence} {q : Query}

theorem tokenize_eq_ok {lexemes : List Lexeme} :
    tokenize text = .ok lexemes ↔ ∃ last, (Cursor.ofText text).deliver.ending = .ok last ∧
      lexemes = (Cursor.ofText text).deliver.lexemes ++ [last] := by
  unfold tokenize Delivery.complete
  cases (Cursor.ofText text).deliver.ending <;> simp [Except.map, eq_comm]

theorem tokenize_eq_error {e : LexError} :
    tokenize text = .error e ↔ (Cursor.ofText text).deliver.ending = .error e := by
  unfold tokenize Delivery.complete
  cases (Cursor.ofText text).deliver.ending <;> simp [Except.map]

/-- The tokens of the text, with the end of input behind them. -/
def HasTokens (text : String) (ts : List Token) : Prop :=
  ∃ lexemes, tokenize text = .ok lexemes ∧ lexemes.map Lexeme.token = ts ++ [.endOfInput]

theorem hasTokens_iff {ts : List Token} :
    HasTokens text ts ↔ ∃ last, (Cursor.ofText text).deliver.ending = .ok last ∧
      (Cursor.ofText text).deliver.lexemes.map Lexeme.token = ts := by
  refine ⟨fun h => ?_, fun h => ?_⟩
  · obtain ⟨lexemes, ht, hs⟩ := h
    obtain ⟨last, hl, rfl⟩ := tokenize_eq_ok.1 ht
    rw [List.map_append] at hs
    exact ⟨last, hl, List.append_inj_left' hs rfl⟩
  · obtain ⟨last, hl, hs⟩ := h
    refine ⟨_, tokenize_eq_ok.2 ⟨last, hl, rfl⟩, ?_⟩
    rw [List.map_append, hs, List.map_singleton, Cursor.token_ending_deliver _ hl]

/-- A text has its tokens and no others. -/
theorem HasTokens.eq {ts us : List Token} (ht : HasTokens text ts) (hu : HasTokens text us) :
    ts = us := by
  obtain ⟨_, -, rfl⟩ := hasTokens_iff.1 ht
  obtain ⟨_, -, rfl⟩ := hasTokens_iff.1 hu
  rfl

/-- A sentence derives a text if the tokens that are delivered are its own. -/
theorem Sentence.derives_iff :
    s.Derives text ↔ ∃ last, (Cursor.ofText text).deliver.ending = .ok last ∧
      (Cursor.ofText text).deliver.lexemes.map Lexeme.token = s.tokens :=
  hasTokens_iff

/-- Reading finds the sentences that derive a text with no more groups open than the limit. -/
theorem Sentence.ofText_eq_ok_iff :
    Sentence.ofText text = .ok s ↔ s.Derives text ∧ mostOpen s.tokens ≤ maxNesting := by
  rw [Sentence.ofText, Stage.read_eq_runAll, Stage.runAll_eq_ok, derives_iff]
  refine ⟨fun h => ?_, fun h => ?_⟩
  · obtain ⟨next, last, hw, hl, hf⟩ := h
    obtain ⟨hs, hm⟩ := Stage.reaches_iff.1 ⟨next, hw, hf⟩
    exact ⟨⟨last, hl, hs.symm⟩, hs ▸ hm⟩
  · obtain ⟨⟨last, hl, hs⟩, hm⟩ := h
    obtain ⟨next, hw, hf⟩ := Stage.reaches_iff.2 ⟨rfl, hm⟩
    exact ⟨next, last, hs ▸ hw, hl, hf⟩

/-- Whether the groups of a derivation keep to the limit can be seen from the text alone, so a text
that is read has one derivation. -/
theorem Sentence.eq_of_derives {t : Sentence} (hs : s.Derives text) (ht : t.Derives text)
    (hm : mostOpen s.tokens ≤ maxNesting) : t = s := by
  have htokens : t.tokens = s.tokens := HasTokens.eq ht hs
  have hs' := ofText_eq_ok_iff.2 ⟨hs, hm⟩
  rw [ofText_eq_ok_iff.2 ⟨ht, htokens ▸ hm⟩] at hs'
  exact Except.ok.inj hs'

theorem Sentence.ne_empty_of_derives (h : s.Derives text) : text ≠ "" := by
  intro heq
  subst heq
  obtain ⟨_, -, hs⟩ := derives_iff.1 h
  have hd : (Cursor.ofText "").deliver.lexemes = [] :=
    congrArg Delivery.lexemes (Cursor.deliver_of_end rfl rfl)
  rw [hd] at hs
  exact s.tokens_ne_nil hs.symm

theorem ofText_eq_ok_iff_sentence (h : text ≠ "") :
    Query.ofText text = .ok q ↔ ∃ s, Sentence.ofText text = .ok s ∧ s.query = q := by
  rw [Query.ofText, if_neg h]
  cases Sentence.ofText text <;> simp [Except.map]

/-- A derivation tells whether the text is accepted, and with which query. -/
theorem Sentence.Derives.ofText_eq_ok_iff (h : s.Derives text) :
    Query.ofText text = .ok q ↔ s.depth ≤ maxNesting ∧ s.query = q := by
  rw [ofText_eq_ok_iff_sentence (ne_empty_of_derives h), ← mostOpen_tokens]
  refine ⟨fun ⟨t, ht, hq⟩ => ?_, fun ⟨hm, hq⟩ => ⟨s, Sentence.ofText_eq_ok_iff.2 ⟨h, hm⟩, hq⟩⟩
  obtain ⟨hd, hm⟩ := Sentence.ofText_eq_ok_iff.1 ht
  obtain rfl := eq_of_derives hd h hm
  exact ⟨hm, hq⟩

theorem ne_empty_of_ofText (h : Query.ofText text = .ok q) (hq : q.isEmpty = false) :
    text ≠ "" := by
  rintro rfl
  cases h
  cases hq

theorem exists_derives_of_ofText (h : Query.ofText text = .ok q) (ht : text ≠ "") :
    ∃ s : Sentence, s.Derives text ∧ s.depth ≤ maxNesting ∧ s.query = q := by
  obtain ⟨s, hs, rfl⟩ := (ofText_eq_ok_iff_sentence ht).1 h
  obtain ⟨hd, hm⟩ := Sentence.ofText_eq_ok_iff.1 hs
  exact ⟨s, hd, mostOpen_tokens s ▸ hm, rfl⟩

/-- The accepted texts are the empty one, which asks for nothing, and those that have a derivation
with at most 64 groups open at a point. There is one derivation then, and the text asks for what it
denotes. Every other text is an error. -/
theorem accepts_iff_derives (text : String) :
    (∀ q, Query.ofText text = .ok q ↔
      (text = "" ∧ q = ⟨none, none⟩) ∨
        ∃ s : Sentence, s.Derives text ∧ mostOpen s.tokens ≤ 64 ∧ s.Denotes q ∧
          ∀ t : Sentence, t.Derives text → t = s) ∧
      ((∃ e, Query.ofText text = .error e) ↔
        text ≠ "" ∧ ¬∃ s : Sentence, s.Derives text ∧ mostOpen s.tokens ≤ 64) := by
  by_cases ht : text = ""
  · subst ht
    have hempty : Query.ofText "" = .ok .empty := rfl
    have hnone : ∀ s : Sentence, ¬s.Derives "" := fun s h => s.ne_empty_of_derives h rfl
    simp [hempty, hnone, Query.empty, eq_comm]
  · refine ⟨fun q => ?_, ?_⟩
    · rw [ofText_eq_ok_iff_sentence ht]
      refine ⟨fun h => ?_, fun h => ?_⟩
      · obtain ⟨s, hs, rfl⟩ := h
        obtain ⟨hd, hm⟩ := Sentence.ofText_eq_ok_iff.1 hs
        exact .inr ⟨s, hd, hm, (s.denotes_iff _).2 rfl, fun t h => Sentence.eq_of_derives hd h hm⟩
      · rcases h with ⟨h, -⟩ | ⟨s, hd, hm, hq, -⟩
        · exact absurd h ht
        · exact ⟨s, Sentence.ofText_eq_ok_iff.2 ⟨hd, hm⟩, ((s.denotes_iff q).1 hq).symm⟩
    · have hsome : (∃ s : Sentence, s.Derives text ∧ mostOpen s.tokens ≤ 64) ↔
          ∃ q, Query.ofText text = .ok q := by
        refine ⟨fun h => ?_, fun h => ?_⟩
        · obtain ⟨s, hs⟩ := h
          exact ⟨_, (ofText_eq_ok_iff_sentence ht).2 ⟨s, Sentence.ofText_eq_ok_iff.2 hs, rfl⟩⟩
        · obtain ⟨q, hq⟩ := h
          obtain ⟨s, hs, -⟩ := (ofText_eq_ok_iff_sentence ht).1 hq
          exact ⟨s, Sentence.ofText_eq_ok_iff.1 hs⟩
      rw [hsome]
      cases Query.ofText text <;> simp [ht]

end FilterQuery
