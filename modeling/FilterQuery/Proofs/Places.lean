import FilterQuery.Position
import Mathlib.Data.List.DropRight

/-!
# Places in a text

The place behind a text is told by the text alone (`Position.behind`): its bytes, its line feeds, and
the characters since the last of them. Advancing over characters puts them behind that text
(`advance_behind`), and putting a text in front of it shifts the place (`shift_behind`). At an offset
a text has one front (`eq_of_append_eq`).
-/

namespace FilterQuery

/-- What stands behind the last line feed. -/
def lastLine (text : String) : List Char :=
  text.toList.rtakeWhile (· ≠ '\n')

theorem lastLine_push (text : String) (c : Char) :
    lastLine (text.push c) = if c = '\n' then [] else lastLine text ++ [c] := by
  rw [lastLine, String.toList_push, List.rtakeWhile_concat]
  by_cases hc : c = '\n' <;> simp [hc, lastLine]

theorem append_ofList_concat (text : String) (cs : List Char) (c : Char) :
    text ++ String.ofList (cs ++ [c]) = (text ++ String.ofList cs).push c := by
  simp [← String.toList_inj]

theorem lastLine_append (front text : String) : lastLine (front ++ text) =
    if '\n' ∈ text.toList then lastLine text else lastLine front ++ text.toList := by
  rcases String.exists_eq_ofList text with ⟨cs, rfl⟩
  induction cs using List.reverseRecOn with
  | nil => simp
  | append_singleton cs c ih =>
    have hpush : String.ofList (cs ++ [c]) = (String.ofList cs).push c := by
      simp
    rw [append_ofList_concat, lastLine_push, ih, hpush, lastLine_push]
    by_cases hc : c = '\n'
    · simp [hc]
    · have hc' : ¬ '\n' = c := fun h => hc h.symm
      by_cases h : '\n' ∈ cs <;> simp [hc, hc', h]

namespace Position

/-- The place right behind `front`, if that stands at the start of a text. -/
def behind (front : String) : Position where
  offset := front.utf8ByteSize
  line := 1 + front.toList.count '\n'
  column := 1 + (lastLine front).length

theorem behind_empty : behind "" = start := rfl

theorem behind_push (front : String) (c : Char) : behind (front.push c) = (behind front).next c := by
  by_cases hc : c = '\n' <;>
    simp [behind, next, lastLine_push, String.utf8ByteSize_push, hc, Nat.add_assoc]

theorem advance_behind (front : String) (cs : List Char) :
    (behind front).advance cs = behind (front ++ String.ofList cs) := by
  induction cs using List.reverseRecOn with
  | nil => simp
  | append_singleton cs c ih =>
    rw [append_ofList_concat, behind_push, ← ih, advance_append]
    rfl

theorem offset_advance (p : Position) (cs : List Char) :
    (p.advance cs).offset = p.offset + (String.ofList cs).utf8ByteSize := by
  induction cs using List.reverseRecOn with
  | nil => simp
  | append_singleton cs c ih =>
    have hnext : ∀ q : Position, (q.next c).offset = q.offset + c.utf8Size := fun q => by
      unfold next
      split <;> rfl
    rw [advance_append, String.ofList_append, String.utf8ByteSize_append, ← Nat.add_assoc, ← ih]
    simpa [advance] using hnext _

/-- Where a place of a text is if `front` is put in front of that text: further by the bytes and the
line feeds of `front`, and in the first line by the characters of the last line of `front`. -/
def shift (front : String) (p : Position) : Position where
  offset := front.utf8ByteSize + p.offset
  line := front.toList.count '\n' + p.line
  column := if p.line = 1 then p.column + ((behind front).column - 1) else p.column

theorem shift_behind (front text : String) :
    shift front (behind text) = behind (front ++ text) := by
  by_cases h : '\n' ∈ text.toList
  · have hpos : 0 < text.toList.count '\n' := List.count_pos_iff.2 h
    simp [shift, behind, lastLine_append, String.utf8ByteSize_append, h]
    omega
  · have hline : 1 + text.toList.count '\n' = 1 := by
      rw [List.count_eq_zero.2 h]
    have hlast : lastLine text = text.toList := by
      have := lastLine_append "" text
      rwa [if_neg h, String.empty_append] at this
    simp [shift, behind, hline, lastLine_append, hlast, String.utf8ByteSize_append, h]
    omega

end Position

section Offset

variable {front front' rest rest' : String}

theorem eq_nil_of_utf8ByteSize {xs ys cs : List Char} (h : xs = ys ++ cs)
    (hs : (String.ofList xs).utf8ByteSize ≤ (String.ofList ys).utf8ByteSize) : cs = [] := by
  rw [h, String.ofList_append, String.utf8ByteSize_append] at hs
  have hzero : (String.ofList cs).utf8ByteSize = 0 := by omega
  simpa [String.utf8ByteSize_eq_zero_iff] using hzero

/-- Of two fronts of a text, the one with fewer bytes is a front of the other one. -/
theorem exists_append_of_le (h : front ++ rest = front' ++ rest')
    (hle : front.utf8ByteSize ≤ front'.utf8ByteSize) :
    ∃ between, front' = front ++ between ∧ rest = between ++ rest' := by
  have hlist : front.toList ++ rest.toList = front'.toList ++ rest'.toList := by
    simpa using congrArg String.toList h
  simp only [← String.toList_inj, String.toList_append]
  rcases List.append_eq_append_iff.1 hlist with ⟨cs, hf, hr⟩ | ⟨cs, hf, hr⟩
  · exact ⟨String.ofList cs, by simpa using hf, by simpa using hr⟩
  · obtain rfl := eq_nil_of_utf8ByteSize hf (by simpa using hle)
    exact ⟨"", by simpa using hf.symm, by simpa using hr.symm⟩

/-- At an offset a text has one front. -/
theorem eq_of_append_eq (h : front ++ rest = front' ++ rest')
    (hs : front.utf8ByteSize = front'.utf8ByteSize) : front = front' ∧ rest = rest' := by
  obtain ⟨between, rfl, rfl⟩ := exists_append_of_le h hs.le
  rw [String.utf8ByteSize_append] at hs
  have hzero : between.utf8ByteSize = 0 := by omega
  rw [String.utf8ByteSize_eq_zero_iff.1 hzero]
  simp

/-- A character that stands behind `front` and not behind `front` and `word` is one of `word`. -/
theorem mem_of_offset {word behind behind' : String} {x : Char}
    (h : front ++ word ++ behind = front' ++ String.singleton x ++ behind')
    (hle : front.utf8ByteSize ≤ front'.utf8ByteSize)
    (hlt : front'.utf8ByteSize < front.utf8ByteSize + word.utf8ByteSize) : x ∈ word.toList := by
  rw [String.append_assoc, String.append_assoc] at h
  obtain ⟨before, rfl, hrest⟩ := exists_append_of_le h hle
  rw [String.utf8ByteSize_append] at hlt
  obtain ⟨more, rfl, hmore⟩ := exists_append_of_le hrest.symm (by omega)
  have hchars := congrArg String.toList hmore
  simp only [String.toList_append, String.toList_singleton] at hchars
  cases hm : more.toList with
  | nil =>
    rw [String.toList_eq_nil_iff.1 hm, String.append_empty] at hlt
    omega
  | cons c cs =>
    rw [hm] at hchars
    obtain ⟨rfl, -⟩ := List.cons.inj hchars
    simp [hm]

end Offset

end FilterQuery
