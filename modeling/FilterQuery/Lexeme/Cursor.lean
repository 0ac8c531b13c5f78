import FilterQuery.Lexeme.Scan

/-!
# Reading lexemes one by one

A cursor is what is left of a text and the place where that starts. A step skips blanks and reads
one lexeme; it can be repeated past the end of input and past an error. A delivery is what steps
bring up to the end of input or the first error, and it ends because each lexeme on the way shortens
the text (`length_rest_next_lt`).
-/

namespace FilterQuery

/-- What is left of a text, and where it starts. -/
structure Cursor where
  rest : List Char
  position : Position

/-- The lexemes of a text up to its end or to the first error. -/
structure Delivery where
  lexemes : List Lexeme
  ending : Except LexError Lexeme

namespace Cursor

def ofText (text : String) : Cursor :=
  ⟨text.toList, .start⟩

def skip (c : Cursor) : Cursor :=
  ⟨skipBlanks c.rest, c.position.advance (c.rest.takeWhile isBlank)⟩

def behind (c : Cursor) (s : Scan) : Cursor :=
  ⟨s.rest, c.position.advance s.text⟩

/-- Reads the next lexeme, or tells why there is none; in both cases goes on behind the text that
has been read. -/
def next (c : Cursor) : Except LexError Lexeme × Cursor :=
  let word := c.skip
  let s := scan word.rest
  let after := word.behind s
  match s.outcome with
  | .ok token => (.ok ⟨token, String.ofList s.text, word.position⟩, after)
  | .error fault => (.error ⟨fault.place word.position after.position, fault⟩, after)

theorem next_snd (c : Cursor) : c.next.2 = c.skip.behind (scan c.skip.rest) := by
  unfold next
  dsimp only
  split <;> rfl

theorem rest_eq (c : Cursor) : c.rest = c.rest.takeWhile isBlank ++ c.skip.rest :=
  List.takeWhile_append_dropWhile.symm

theorem rest_skip (c : Cursor) : c.skip.rest = (scan c.skip.rest).text ++ c.next.2.rest := by
  rw [next_snd, behind, text_append_rest_scan]

theorem next_of_ok {c : Cursor} {t : Token} (h : (scan c.skip.rest).outcome = .ok t) :
    c.next.1 = .ok ⟨t, String.ofList (scan c.skip.rest).text, c.skip.position⟩ := by
  simp only [next, h]

theorem next_of_error {c : Cursor} {f : LexFault} (h : (scan c.skip.rest).outcome = .error f) :
    c.next.1 = .error ⟨f.place c.skip.position c.next.2.position, f⟩ := by
  rw [next_snd]
  simp only [next, h]

theorem outcome_of_next_ok {c : Cursor} {l : Lexeme} (h : c.next.1 = .ok l) :
    (scan c.skip.rest).outcome = .ok l.token ∧
      l = ⟨l.token, String.ofList (scan c.skip.rest).text, c.skip.position⟩ := by
  rcases hs : (scan c.skip.rest).outcome with f | t
  · rw [next_of_error hs] at h
    cases h
  · rw [next_of_ok hs] at h
    cases h
    exact ⟨rfl, rfl⟩

theorem outcome_of_next_error {c : Cursor} {p : Position} {f : LexFault}
    (h : c.next.1 = .error ⟨p, f⟩) : (scan c.skip.rest).outcome = .error f ∧
      p = f.place c.skip.position c.next.2.position := by
  rcases hs : (scan c.skip.rest).outcome with g | t
  · rw [next_of_error hs] at h
    cases h
    exact ⟨rfl, rfl⟩
  · rw [next_of_ok hs] at h
    cases h

theorem length_rest_next_lt {c after : Cursor} {lexeme : Lexeme} (h : c.next = (.ok lexeme, after))
    (ht : lexeme.token ≠ .endOfInput) : after.rest.length < c.rest.length := by
  obtain ⟨hs, -⟩ := outcome_of_next_ok (congrArg Prod.fst h)
  have hafter : c.next.2 = after := congrArg Prod.snd h
  have hpos := List.length_pos_iff.2 (text_scan_ne_nil hs ht)
  have hblanks := congrArg List.length c.rest_eq
  have hword := congrArg List.length c.rest_skip
  rw [List.length_append] at hblanks hword
  rw [hafter] at hword
  omega

/-- Reads on to the end of input or to the first error. -/
def deliver (c : Cursor) : Delivery :=
  match h : c.next with
  | (.error e, _) => ⟨[], .error e⟩
  | (.ok lexeme, after) =>
    if ht : lexeme.token = .endOfInput then ⟨[], .ok lexeme⟩
    else
      have := length_rest_next_lt h ht
      let rest := after.deliver
      ⟨lexeme :: rest.lexemes, rest.ending⟩
termination_by c.rest.length

theorem deliver_of_error {c after : Cursor} {e : LexError} (h : c.next = (.error e, after)) :
    c.deliver = ⟨[], .error e⟩ := by
  rw [deliver]
  split <;> rename_i h' <;> rw [h] at h' <;> cases h'
  rfl

theorem deliver_of_end {c after : Cursor} {lexeme : Lexeme} (h : c.next = (.ok lexeme, after))
    (ht : lexeme.token = .endOfInput) : c.deliver = ⟨[], .ok lexeme⟩ := by
  rw [deliver]
  split <;> rename_i h' <;> rw [h] at h' <;> cases h'
  rw [dif_pos ht]

theorem deliver_of_ok {c after : Cursor} {lexeme : Lexeme} (h : c.next = (.ok lexeme, after))
    (ht : lexeme.token ≠ .endOfInput) :
    c.deliver = ⟨lexeme :: after.deliver.lexemes, after.deliver.ending⟩ := by
  rw [deliver]
  split <;> rename_i h' <;> rw [h] at h' <;> cases h'
  rw [dif_neg ht]

end Cursor

def Delivery.complete (d : Delivery) : Except LexError (List Lexeme) :=
  d.ending.map fun last => d.lexemes ++ [last]

def tokenize (text : String) : Except LexError (List Lexeme) :=
  (Cursor.ofText text).deliver.complete

end FilterQuery
