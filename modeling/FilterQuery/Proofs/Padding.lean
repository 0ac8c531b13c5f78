import FilterQuery.Proofs.Descent
import FilterQuery.Proofs.Places

/-!
# Blanks behind a text

No lexeme goes on with a blank, and no fault is mended by one: an open string stays open, and a
number word, a point behind an identifier and a character that fits nowhere are followed by what
cannot belong to them (`scan_append_of_error`). So a cursor brings the same with blanks behind its
text, except that the end of the input has another place. Reading comes to the same query, or to the
same error if this is not at the end of the input (`ofText_append_blanks`).
-/

namespace FilterQuery

/-- The same error in a text that ends at `place`: only an error at the end of the input is found
elsewhere. -/
def ParseError.endAt (place : Position) : ParseError → ParseError
  | .grammatical e =>
    .grammatical (if e.found = .endOfInput then { e with position := place } else e)
  | .lexical e => .lexical e

theorem takeWhile_append_of_not {p : Char → Bool} {ds : List Char}
    (hd : ∀ c ∈ ds.head?, p c = false) (cs : List Char) :
    (cs ++ ds).takeWhile p = cs.takeWhile p := by
  induction cs with
  | nil => cases ds <;> simp_all
  | cons c cs ih => simp [List.takeWhile_cons, ih]

namespace Quoted

theorem split_eq_none {cs : List Char} (h : '\'' ∉ cs) : split cs = none := by
  fun_induction split cs with
  | case1 => rfl
  | case2 => simp at h
  | case3 c cs ih =>
    simp only [List.mem_cons, not_or] at h
    rw [ih h.2.2]
    rfl
  | case4 c cs _ _ ih =>
    rw [ih (List.not_mem_of_not_mem_cons h)]
    rfl

/-- A string that is open is not closed by anything without a quote. -/
theorem split_append_eq_none {cs ds : List Char} (h : split cs = none) (hd : '\'' ∉ ds) :
    split (cs ++ ds) = none := by
  fun_induction split cs with
  | case1 => exact split_eq_none hd
  | case2 => cases h
  | case3 c cs ih =>
    have hcs := ih (Option.map_eq_none_iff.1 h)
    simp [split, hcs]
  | case4 c cs hq hpair ih =>
    have hcs := ih (Option.map_eq_none_iff.1 h)
    by_cases hb : c = '\\'
    · -- the backslash is the last character, and pairs with the first one behind it
      cases cs with
      | nil => exact split_eq_none (by simp [hb, hd])
      | cons d cs => exact absurd rfl (hpair d cs hb)
    · rw [List.cons_append, split_cons hq hb, hcs]
      rfl

end Quoted

variable {c : Char} {cs blanks : List Char}

theorem not_isNumberChar_head (hb : ∀ c ∈ blanks, isBlank c = true) :
    ∀ c ∈ blanks.head?, isNumberChar c = false :=
  fun c hc => not_isNumberChar_of_isBlank (hb c (List.mem_of_mem_head? hc))

theorem splitPath_append_blanks (hb : ∀ c ∈ blanks, isBlank c = true) : ∀ cs : List Char,
    splitPath (cs ++ blanks) = ((splitPath cs).1, (splitPath cs).2 ++ blanks)
  | [] => splitPath_append_of_stop (not_isNumberChar_head hb) []
  | c :: cs => by
    have hsegment : startsSegment (cs ++ blanks) = startsSegment cs := by
      cases cs with
      | cons => rfl
      | nil =>
        cases blanks with
        | nil => rfl
        | cons b bs =>
          have hn := not_isNumberChar_head hb b rfl
          simp only [isNumberChar, Bool.or_eq_false_iff] at hn
          rw [List.nil_append, startsSegment, startsSegment, ← Bool.not_eq_true]
          intro hs
          rw [isWordChar_of_isWordStart hs] at hn
          cases hn.1
    rw [List.cons_append, splitPath, splitPath, hsegment, splitPath_append_blanks hb cs]
    split <;> rfl

theorem splitSymbol_eq_none_iff : splitSymbol (c :: cs) = none ↔
    isSymbolStart c = false ∨ c = '!' ∧ cs.head? ≠ some '=' := by
  have hbang : c = '!' ∨ c ≠ '!' := em _
  unfold splitSymbol
  split <;> simp_all [isSymbolStart]
  -- what remains is a character that is no other symbol and may be `!`
  rename_i hne _ _
  rcases hbang with hc | hc
  · refine .inr ⟨hc, fun he => ?_⟩
    obtain ⟨ds, rfl⟩ := List.head?_eq_some_iff.1 he
    exact hne ds hc rfl
  · exact .inl hc

/-- What a character begins that fits nowhere: no symbol, string, word or number. -/
theorem scan_eq_invalidCharacter_iff :
    scan (c :: cs) = ⟨.error (.invalidCharacter c), [], c :: cs⟩ ↔
      splitSymbol (c :: cs) = none ∧ c ≠ '\'' ∧ isWordStart c = false ∧
        isNumberStart c = false := by
  constructor
  · intro h
    have htext := congrArg Scan.text h
    refine ⟨?_, ?_, ?_, ?_⟩
    · rcases hs : splitSymbol (c :: cs) with _ | ⟨t, text, rest⟩
      · rfl
      · rw [scan_of_symbol hs] at h
        cases h
    · rintro rfl
      rw [scan_of_quote] at htext
      exact scanString_ne_nil cs htext
    · rw [← Bool.not_eq_true]
      intro hw
      rw [scan_of_isWordStart hw] at htext
      exact splitPath_ne_nil cs hw htext
    · rw [← Bool.not_eq_true]
      intro hn
      rw [scan_of_isNumberStart hn] at htext
      exact splitNumber_ne_nil cs hn htext
  · rintro ⟨hs, hq, hw, hn⟩
    rw [scan, hs]
    simp only [if_neg hq, hw]
    exact if_neg (Bool.not_eq_true _ ▸ hn)

/-- A fault in front of blanks is the same fault at the same place. -/
theorem scan_append_of_error (hb : ∀ c ∈ blanks, isBlank c = true) {f : LexFault}
    (h : (scan cs).outcome = .error f) : (scan (cs ++ blanks)).outcome = .error f ∧
      ∀ p : Position, f.place p (p.advance (scan (cs ++ blanks)).text) =
        f.place p (p.advance (scan cs).text) := by
  rcases scan_front cs with ⟨t, text, rest, -, heq⟩ | ⟨-, heq⟩ | ⟨ds, rfl, heq⟩ |
    ⟨c, ds, rfl, hw, heq⟩ | ⟨c, ds, rfl, hn, heq⟩ | ⟨c, ds, rfl, heq⟩ <;> rw [heq] at h ⊢
  · cases h
  · cases h
  · rw [scanString] at h
    split at h
    · cases h
    · rename_i hs
      cases h
      have hquote : '\'' ∉ blanks := fun hq => absurd (hb _ hq) (by decide)
      rw [List.cons_append, scan_of_quote, scanString, Quoted.split_append_eq_none hs hquote]
      exact ⟨rfl, fun _ => rfl⟩
  · have hsplit := splitPath_append_blanks hb (c :: ds)
    rw [List.cons_append] at hsplit ⊢
    rw [scan_of_isWordStart hw]
    simp only [scanWord, hsplit] at h ⊢
    split at h
    · rename_i rest hrest
      rw [hrest]
      exact ⟨h, fun _ => trivial⟩
    · cases h
  · have htake := takeWhile_append_of_not (not_isNumberChar_head hb) ds
    rw [List.cons_append, scan_of_isNumberStart hn]
    simp only [scanNumber, splitNumber_cons hn, htake] at h ⊢
    exact ⟨h, fun _ => trivial⟩
  · obtain ⟨hs, hq, hw, hn⟩ := scan_eq_invalidCharacter_iff.1 heq
    have happend : splitSymbol (c :: (ds ++ blanks)) = none := by
      rw [splitSymbol_eq_none_iff] at hs ⊢
      rcases hs with hs | ⟨hc, hd⟩
      · exact .inl hs
      · refine .inr ⟨hc, fun he => ?_⟩
        cases ds with
        | cons => exact hd he
        | nil => exact absurd (hb '=' (List.mem_of_mem_head? he)) (by decide)
    rw [List.cons_append, scan_eq_invalidCharacter_iff.2 ⟨happend, hq, hw, hn⟩]
    exact ⟨h, fun _ => rfl⟩

namespace Cursor

/-- The cursor in the same text with something behind it. -/
def pad (c : Cursor) (ds : List Char) : Cursor :=
  ⟨c.rest ++ ds, c.position⟩

/-- The place of the end of the text. -/
def finish (c : Cursor) : Position :=
  c.position.advance c.rest

theorem skip_pad {c : Cursor} (h : c.skip.rest ≠ []) (ds : List Char) :
    (c.pad ds).skip = c.skip.pad ds := by
  have hdrop : c.rest.dropWhile isBlank ≠ [] := h
  have hlength : (c.rest.takeWhile isBlank).length ≠ c.rest.length := by
    have hsplit := congrArg List.length c.rest_eq
    have hpos := List.length_pos_iff.2 h
    rw [List.length_append] at hsplit
    omega
  rw [skip, pad, skip, pad, skipBlanks, skipBlanks, List.takeWhile_append, List.dropWhile_append,
    if_neg hlength, if_neg (by simpa using hdrop)]

theorem next_pad_of_ok (hb : ∀ c ∈ blanks, isBlank c = true) {c after : Cursor} {lexeme : Lexeme}
    (h : c.next = (.ok lexeme, after)) (ht : lexeme.token ≠ .endOfInput) :
    (c.pad blanks).next = (.ok lexeme, after.pad blanks) ∧ after.finish = c.finish := by
  obtain ⟨front, word, hc, hfront, -, hs, hl, hafter⟩ := next_eq_ok h ht
  have hglue : ∀ x ∈ (after.rest ++ blanks).head?, lexeme.token.gluesTo x = false := by
    intro x hx
    cases hr : after.rest with
    | nil =>
      rw [hr, List.nil_append] at hx
      exact not_gluesTo_of_isBlank (hb x (List.mem_of_mem_head? hx)) lexeme.token
    | cons y ys =>
      rw [hr] at hx
      exact not_glued_scan hs ht x (by rw [hr]; exact hx)
  have hnext := next_of_scan c.position hfront (scan_append hs ht hglue) ht
  rw [← hl, ← hafter] at hnext
  refine ⟨?_, ?_⟩
  · rw [pad, hc, List.append_assoc, List.append_assoc]
    exact hnext
  · rw [finish, finish, hafter, hc, ← Position.advance_append, List.append_assoc]

theorem next_pad_of_error (hb : ∀ c ∈ blanks, isBlank c = true) {c after : Cursor} {e : LexError}
    (h : c.next = (.error e, after)) : (c.pad blanks).next.1 = .error e := by
  obtain ⟨place, f⟩ := e
  obtain ⟨hs, rfl⟩ := outcome_of_next_error (congrArg Prod.fst h)
  have hne : c.skip.rest ≠ [] := by
    intro hnil
    rw [hnil] at hs
    cases hs
  obtain ⟨hpad, hplace⟩ := scan_append_of_error hb hs
  have hskip := skip_pad hne blanks
  have hrest : (c.pad blanks).skip.rest = c.skip.rest ++ blanks := congrArg Cursor.rest hskip
  rw [← hrest] at hpad
  rw [next_of_error hpad, next_snd, next_snd, behind, behind, hskip]
  exact congrArg (fun p => Except.error (LexError.mk p f)) (hplace c.skip.position)

end Cursor

namespace Stage

/-- Blanks behind a text change nothing of what is read, but the place of its end. -/
theorem read_pad (hb : ∀ c ∈ blanks, isBlank c = true) (stage : Stage) (c : Cursor) :
    stage.read c = (stage.read (c.pad blanks)).mapError (.endAt c.finish) := by
  fun_induction read stage c with
  | case1 stage c e after h =>
    have hpad := Cursor.next_pad_of_error hb h
    rw [read_of_next_error stage (Prod.ext hpad rfl)]
    rfl
  | case2 stage c lexeme after h ht =>
    obtain ⟨hrest, rfl⟩ := Cursor.next_eq_end h ht
    have hpad : (c.pad blanks).next = _ :=
      Cursor.next_blanks c.position (List.forall_mem_append.2 ⟨hrest, hb⟩)
    rw [read_of_next_ok stage hpad, readAt, if_pos rfl, close, close]
    cases stage.finish <;> rfl
  | case3 stage c lexeme after h ht e he =>
    obtain ⟨hpad, -⟩ := Cursor.next_pad_of_ok hb h ht
    rw [read_of_next_ok stage hpad, readAt, if_neg ht, he, take_eq_error he]
    simp [Except.mapError, ParseError.endAt, ht]
  | case4 stage c lexeme after h ht next hn _ ih =>
    obtain ⟨hpad, hfinish⟩ := Cursor.next_pad_of_ok hb h ht
    rw [read_of_next_ok stage hpad, readAt, if_neg ht, hn, ← hfinish]
    exact ih

end Stage

theorem Cursor.finish_ofText (text : String) : (Cursor.ofText text).finish = .behind text := by
  rw [finish, ofText, ← Position.behind_empty, Position.advance_behind, String.ofList_toList,
    String.empty_append]

/-- With blanks behind it, a text that is not empty asks for the same, or it has the same error. An
error at the end of the input is at the end of either text. -/
theorem ofText_append_blanks (hb : ∀ c ∈ blanks, isBlank c = true) {text : String}
    (h : text ≠ "") : Query.ofText text =
      (Query.ofText (text ++ String.ofList blanks)).mapError (.endAt (.behind text)) := by
  have hpad : Cursor.ofText (text ++ String.ofList blanks) = (Cursor.ofText text).pad blanks := by
    simp [Cursor.ofText, Cursor.pad]
  have hne : text ++ String.ofList blanks ≠ "" := by
    simp [h]
  rw [Query.ofText, Query.ofText, if_neg h, if_neg hne, Sentence.ofText, Sentence.ofText, hpad,
    Stage.read_pad hb, Cursor.finish_ofText]
  cases Stage.start.read ((Cursor.ofText text).pad blanks) <;> rfl

/-- A text of blanks alone is refused at its end, unless it is empty. -/
theorem ofText_of_blanks {text : String} (h : text ≠ "")
    (hb : ∀ c ∈ text.toList, isBlank c = true) : Query.ofText text =
      .error (.grammatical ⟨.behind text, .filterOrOrder, .endOfInput⟩) := by
  have hnext : (Cursor.ofText text).next = _ := Cursor.next_blanks .start hb
  rw [Query.ofText, if_neg h, Sentence.ofText, Stage.read_of_next_ok .start hnext,
    ← Cursor.finish_ofText]
  rfl

end FilterQuery
