import FilterQuery.Proofs.Writing

/-!
# The first token that no sentence has there

Every stage can be completed: some tokens, none of which opens a group, lead from it to a sentence
(`walk_completion`). So what stands in front of a token that is refused is the beginning of a text
that is accepted, however many groups are open there. And since reading looks at nothing behind the
token it refuses, whatever stands there changes nothing. A syntax error therefore shows the first
token that makes the text hopeless (`refused_at_first_hopeless`).
-/

namespace FilterQuery

variable {text : String} {stage next : Stage} {c d after : Cursor} {lexeme : Lexeme}
  {lexemes : List Lexeme} {e : SyntaxError}

namespace Stage

/-- Tokens that complete the phrase that has begun. -/
def phraseEnd : Stage → List Token
  | .start | .operand _ => [.identifier "a", .comparison .equal, .literal .null]
  | .predicate .. => [.comparison .equal, .literal .null]
  | .inList .. => [.keyword .inList, .openParen, .literal .null, .closeParen]
  | .value .. => [.literal .null]
  | .list .. => [.openParen, .literal .null, .closeParen]
  | .element .. => [.literal .null, .closeParen]
  | .separator .. => [.closeParen]
  | .byKeys _ => [.keyword .byKeys, .identifier "a"]
  | .sortKey .. => [.identifier "a"]
  | .connective .. | .sortEnd .. => []

/-- Tokens that complete the phrase that has begun and close all groups. -/
def completion (stage : Stage) : List Token :=
  stage.phraseEnd ++ List.replicate stage.nesting.groups .closeParen

theorem isWritable_completion (stage : Stage) : ∀ t ∈ stage.completion, t.IsWritable := by
  have hphrase : ∀ t ∈ stage.phraseEnd, t.IsWritable := by
    cases stage <;> exact of_decide_eq_true rfl
  intro t ht
  rcases List.mem_append.1 ht with ht | ht
  · exact hphrase t ht
  · rw [List.eq_of_mem_replicate ht]
    trivial

/-- Behind an operand, closing all groups leads to a sentence. -/
theorem walk_closeParens : ∀ (outer : List Frame) (frame : Frame) (c : Conjunction),
    ∃ last s, walk (.connective ⟨frame, outer⟩ c) (List.replicate outer.length .closeParen) =
      .ok last ∧ last.finish = .ok s
  | [], _, _ => ⟨_, _, rfl, rfl⟩
  | next :: outer, _, _ => walk_closeParens outer next _

theorem walk_completion (stage : Stage) :
    ∃ last s, stage.walk stage.completion = .ok last ∧ last.finish = .ok s := by
  cases stage with
  | operand site | predicate site | inList site | value site | list site | element site
  | separator site | connective site => exact walk_closeParens site.outer site.frame _
  | start | byKeys | sortKey | sortEnd => exact ⟨_, _, rfl, rfl⟩

theorem read_of_written {last : Stage} {s : Sentence} {ts : List Token} {cs : List Char}
    (hw : stage.walk ts = .ok last) (hf : last.finish = .ok s) (h : Written ts cs)
    (ht : ∀ t ∈ ts, t.IsWritable) (p : Position) : stage.read ⟨cs, p⟩ = .ok s := by
  obtain ⟨lexemes, blanks, q, hl, hb, hp⟩ := h.passes ht p
  exact read_eq_ok_of_passes hp hb (hl ▸ hw) hf

theorem read_of_refused (hp : c.Passes lexemes d)
    (hw : stage.walk (lexemes.map Lexeme.token) = .ok next) (hn : d.next = (.ok lexeme, after))
    (ht : lexeme.token ≠ .endOfInput) (he : next.take lexeme = .error e) :
    stage.read c = .error (.grammatical e) := by
  rw [read_of_passes hp hw, read_eq_runAll, Cursor.deliver_of_ok hn ht, runAll_cons, he]

theorem take_eq_error (h : stage.take lexeme = .error e) :
    e = ⟨lexeme.position, e.expected, lexeme.token⟩ := by
  unfold take at h
  split at h <;> cases h
  rfl

theorem close_eq_error {last : Lexeme} (h : stage.close last = .error e) :
    stage.finish = .error e.expected ∧ e = ⟨last.position, e.expected, last.token⟩ := by
  unfold close at h
  split at h <;> cases h
  exact ⟨‹_›, rfl⟩

end Stage

namespace Cursor

theorem next_eq_append (h : c.next = (.ok lexeme, after)) :
    ∃ blanks, c.rest = blanks ++ (lexeme.text.toList ++ after.rest) ∧
      (∀ x ∈ blanks, isBlank x = true) ∧ lexeme.position = c.position.advance blanks := by
  by_cases ht : lexeme.token = .endOfInput
  · obtain ⟨hb, rfl⟩ := next_eq_end h ht
    have ha : after.rest = [] := by
      have hn : next ⟨c.rest, c.position⟩ = _ := next_blanks c.position hb
      rw [h] at hn
      exact congrArg (Cursor.rest ∘ Prod.snd) hn
    exact ⟨c.rest, by simp [ha], hb, rfl⟩
  · obtain ⟨blanks, word, hc, hb, -, -, hl, -⟩ := next_eq_ok h ht
    rw [hl]
    exact ⟨blanks, by rwa [String.toList_ofList], hb, rfl⟩

end Cursor

/-- The lexeme is one that is delivered, the end of the input included. -/
def Delivery.Brings (d : Delivery) (lexeme : Lexeme) : Prop :=
  lexeme ∈ d.lexemes ∨ d.ending = .ok lexeme

theorem brings_of_passes (hp : c.Passes lexemes d) (hn : d.next = (.ok lexeme, after)) :
    c.deliver.Brings lexeme := by
  rw [Cursor.deliver_of_passes hp]
  by_cases ht : lexeme.token = .endOfInput
  · rw [Cursor.deliver_of_end hn ht]
    exact .inr rfl
  · rw [Cursor.deliver_of_ok hn ht]
    exact .inl (by simp)

theorem ofText_eq_error {e : ParseError} :
    Query.ofText text = .error e ↔ text ≠ "" ∧ Stage.start.read (.ofText text) = .error e := by
  unfold Query.ofText
  split
  · simp [*]
  · rw [Sentence.ofText]
    cases Stage.start.read (.ofText text) <;> simp [*, Except.map]

theorem exists_ofText_eq_ok {passed blanks : List Char} {q : Position}
    (hw : Stage.walk .start (lexemes.map Lexeme.token) = .ok stage)
    (hb : ∀ x ∈ blanks, isBlank x = true)
    (hagain : ∀ r, (∀ l ∈ lexemes.getLast?, ∀ x ∈ r.head?, l.token.gluesTo x = false) →
      Cursor.Passes ⟨passed ++ r, .start⟩ lexemes ⟨r, q⟩) :
    ∃ v query, Query.ofText (String.ofList (passed ++ blanks) ++ " " ++ v) = .ok query := by
  obtain ⟨last, s, hlast, hfinish⟩ := stage.walk_completion
  obtain ⟨cs, hcs, -⟩ := exists_written fun t ht => (stage.isWritable_completion t ht).exists_spells
  have hspace : isBlank ' ' = true := by decide
  have hblanks : ∀ c ∈ blanks ++ [' '], isBlank c = true := fun c hc =>
    (List.mem_append.1 hc).elim (hb c) fun hc => List.mem_singleton.1 hc ▸ hspace
  have hhead : ∀ x ∈ (blanks ++ [' '] ++ cs).head?, isBlank x = true := fun x hx => by
    rw [List.head?_append_of_ne_nil _ (by simp)] at hx
    exact hblanks x (List.mem_of_mem_head? hx)
  have hwritten := hcs.append_blanks hblanks
  have hpass := hagain (blanks ++ [' '] ++ cs) fun l _ x hx =>
    not_gluesTo_of_isBlank (hhead x hx) l.token
  have hread := Stage.read_of_written hlast hfinish hwritten stage.isWritable_completion q
  rw [← Stage.read_of_passes hpass hw] at hread
  refine ⟨String.ofList cs, s.query, ?_⟩
  have htext : String.ofList (passed ++ blanks) ++ " " ++ String.ofList cs =
      String.ofList (passed ++ (blanks ++ [' '] ++ cs)) := by
    rw [← String.toList_inj]
    simp
  have hne : String.ofList (passed ++ (blanks ++ [' '] ++ cs)) ≠ "" := by
    rw [← htext]
    intro h
    simpa using congrArg String.toList h
  rw [htext, ofText_eq_ok_iff_sentence hne]
  exact ⟨s, by rwa [Sentence.ofText, Cursor.ofText, String.toList_ofList], rfl⟩

/-- A refused lexeme is refused with any blank and any text behind it. -/
theorem ofText_refused (hp : (Cursor.ofText text).Passes lexemes d)
    (hw : Stage.walk .start (lexemes.map Lexeme.token) = .ok stage)
    (hn : d.next = (.ok lexeme, after)) (ht : lexeme.token ≠ .endOfInput)
    (he : stage.take lexeme = .error e) {front : String}
    (hfront : text = front ++ String.ofList after.rest) {b : Char} (hb : isBlank b = true)
    (behind : String) :
    Query.ofText (front ++ String.singleton b ++ behind) = .error (.grammatical e) := by
  obtain ⟨passed, hrest, -, -, hagain⟩ := (hp.snoc hn ht).again
  have hpassed : passed = front.toList := by
    have h : text.toList = passed ++ after.rest := hrest
    rw [hfront, String.toList_append, String.toList_ofList] at h
    exact (List.append_cancel_right h).symm
  have hpass := hagain (b :: behind.toList) fun l _ x hx => by
    obtain rfl : b = x := Option.some.inj hx
    exact not_gluesTo_of_isBlank hb l.token
  obtain ⟨mid, hmid, hnext, -⟩ := hpass.eq_snoc
  have htext : (front ++ String.singleton b ++ behind).toList = passed ++ b :: behind.toList := by
    simp [hpassed]
  refine ofText_eq_error.2 ⟨fun h => ?_, ?_⟩
  · rw [h] at htext
    simp at htext
  · rw [Cursor.ofText, htext]
    exact Stage.read_of_refused hmid hw hnext ht he

/-- If only the end of the input is refused, the tokens of the text are those of no sentence. -/
theorem not_derives_of_close {last : Lexeme} (hp : (Cursor.ofText text).Passes lexemes d)
    (hw : Stage.walk .start (lexemes.map Lexeme.token) = .ok stage)
    (hn : d.next = (.ok last, after)) (ht : last.token = .endOfInput)
    (he : stage.close last = .error e) (s : Sentence) : ¬s.Derives text := by
  intro hs
  obtain ⟨_, -, htokens⟩ := Sentence.derives_iff.1 hs
  rw [Cursor.deliver_of_passes hp, Cursor.deliver_of_end hn ht, List.append_nil] at htokens
  rw [htokens] at hw
  obtain ⟨stage', hw', hf⟩ := Stage.reaches_iff.2 ⟨rfl, Stage.mostOpen_le_of_walk hw⟩
  rw [hw] at hw'
  cases hw'
  rw [(Stage.close_eq_error he).1] at hf
  cases hf

/-- A syntax error shows a lexeme of the text, perhaps the end of the input, at its place and with
its token. The text in front of it, with a space and something more behind it, is accepted. If the
lexeme is not the end of the input, then the text up to it, with any blank and any text behind it,
has the same error; otherwise the tokens of the text are those of no sentence. -/
theorem refused_at_first_hopeless {text : String} {e : SyntaxError}
    (h : Query.ofText text = .error (.grammatical e)) :
    ∃ (front rest : String) (lexeme : Lexeme),
      (text = front ++ lexeme.text ++ rest ∧ (Cursor.ofText text).deliver.Brings lexeme ∧
        lexeme.position = Position.start.advance front.toList ∧
        e.position = lexeme.position ∧ e.found = lexeme.token ∧
        e.message = "expected " ++ e.expected.message ++ ", found " ++ lexeme.token.describe ++
          " at " ++ lexeme.position.describe) ∧
      (∃ v q, Query.ofText (front ++ " " ++ v) = .ok q) ∧
      (lexeme.token ≠ .endOfInput → ∀ b, isBlank b = true → ∀ behind : String,
        Query.ofText (front ++ lexeme.text ++ String.singleton b ++ behind) =
          .error (.grammatical e)) ∧
      (lexeme.token = .endOfInput → ∀ s : Sentence, ¬s.Derives text) := by
  obtain ⟨-, hread⟩ := ofText_eq_error.1 h
  obtain ⟨lexemes, d, stage, lexeme, after, hp, hw, hn, he⟩ := Stage.read_eq_grammatical hread
  obtain ⟨passed, hrest, hposition, -, hagain⟩ := hp.again
  obtain ⟨blanks, hd, hb, hplace⟩ := Cursor.next_eq_append hn
  have hrest : text.toList = passed ++ d.rest := hrest
  have hposition : d.position = Position.start.advance passed := hposition
  have hfound : e = ⟨lexeme.position, e.expected, lexeme.token⟩ := by
    split at he
    · exact (Stage.close_eq_error he).2
    · exact Stage.take_eq_error he
  have htext : text =
      String.ofList (passed ++ blanks) ++ lexeme.text ++ String.ofList after.rest := by
    rw [← String.toList_inj, hrest, hd]
    simp
  refine ⟨String.ofList (passed ++ blanks), String.ofList after.rest, lexeme,
    ⟨htext, brings_of_passes hp hn, ?_, ?_, ?_, ?_⟩, exists_ofText_eq_ok hw hb hagain,
    fun ht b hb' behind => ?_, fun ht s => ?_⟩
  · rw [hplace, hposition, String.toList_ofList, Position.advance_append]
  · rw [hfound]
  · rw [hfound]
  · rw [hfound, SyntaxError.message]
  · rw [if_neg ht] at he
    exact ofText_refused hp hw hn ht he htext hb' behind
  · rw [if_pos ht] at he
    exact not_derives_of_close hp hw hn ht he s

theorem refused_at_second_operand : ∃ e,
    Query.ofText "a = 1 b" = .error (.grammatical e) ∧
      ∃ (front rest : String) (lexeme : Lexeme), "a = 1 b" = front ++ lexeme.text ++ rest ∧
        e.position = lexeme.position ∧ e.found = lexeme.token ∧
        (∃ v q, Query.ofText (front ++ " " ++ v) = .ok q) ∧
        ∀ b, isBlank b = true → ∀ behind : String,
          Query.ofText (front ++ lexeme.text ++ String.singleton b ++ behind) =
            .error (.grammatical e) := by
  have h : Query.ofText "a = 1 b" =
      .error (.grammatical ⟨⟨6, 1, 7⟩, .connective, .identifier "b"⟩) :=
    ofText_eq_error.2 ⟨by decide, Stage.read_of_refused
      (.cons rfl nofun (.cons rfl nofun (.cons rfl nofun (.nil _)))) rfl rfl nofun rfl⟩
  obtain ⟨front, rest, lexeme, ⟨htext, -, -, hp, hf, -⟩, hv, hbehind, -⟩ :=
    refused_at_first_hopeless h
  exact ⟨_, h, front, rest, lexeme, htext, hp, hf, hv, hbehind (hf ▸ nofun)⟩

end FilterQuery
