import FilterQuery.Proofs.Slices
import FilterQuery.Proofs.Spelling
import Mathlib.Data.String.Basic

/-!
# Steps past errors

A cursor can be stepped on whatever the steps bring. It always has a front of its text behind it and
stands at the bytes of that front (`Cursor.HasRead`), and it never goes back. A step reads on unless
it finds the end of the input or a character that fits nowhere; behind the end, and in front of such
a character, all further steps bring the same, save that a point behind an identifier is read as a
number in the next one (`Cursor.StandsIn.progress`). So a text is delivered in at most one step more
than it has characters.
-/

namespace FilterQuery

/-- A word that begins with a point is a bad number. -/
theorem scan_point (ds : List Char) : ∃ word, (scan ('.' :: ds)).outcome =
    .error (.malformedNumber (String.ofList ('.' :: word))) := by
  refine ⟨ds.takeWhile isNumberChar, ?_⟩
  rw [scan_of_isNumberStart (by decide), scanNumber, splitNumber_cons (by decide)]
  rfl

/-- What stands behind a front of a text, by its bytes. -/
theorem extract_append (front word rest : String) :
    String.Pos.Raw.extract (front ++ word ++ rest) ⟨front.utf8ByteSize⟩
      ⟨front.utf8ByteSize + word.utf8ByteSize⟩ = word := by
  rcases String.exists_eq_ofList front with ⟨l, rfl⟩
  rcases String.exists_eq_ofList word with ⟨m, rfl⟩
  rcases String.exists_eq_ofList rest with ⟨r, rfl⟩
  rw [← String.ofList_append, ← String.ofList_append, String.utf8ByteSize_ofList,
    String.utf8ByteSize_ofList, String.extract_of_valid]

namespace Cursor

theorem skip_skip (c : Cursor) : c.skip.skip = c.skip := by
  have hnone : c.skip.rest.takeWhile isBlank = [] := by
    have hlength := congrArg List.length c.skip.rest_eq
    simp only [skip, skipBlanks, List.dropWhile_idempotent, List.length_append] at hlength
    simpa [skip, skipBlanks] using hlength
  simp only [skip, skipBlanks] at hnone ⊢
  rw [List.dropWhile_idempotent, hnone]
  rfl

theorem next_skip (c : Cursor) : c.skip.next = c.next := by
  unfold next
  rw [skip_skip]

/-- The cursor has read `i` characters of the text: the others are left, and it stands at the bytes
of those that are read, where a character begins or the text ends. -/
structure HasRead (c : Cursor) (text : String) (i : Nat) : Prop where
  le : i ≤ text.length
  rest : c.rest = text.toList.drop i
  offset : c.position.offset = (String.ofList (text.toList.take i)).utf8ByteSize
  isValid : String.Pos.Raw.IsValid text ⟨c.position.offset⟩

/-- How many characters of the text a cursor has read. -/
def index (c : Cursor) (text : String) : Nat :=
  text.length - c.rest.length

end Cursor

/-- `word` is what stands in `text` between two offsets, at which characters begin or the text
ends. -/
structure IsSlice (text : String) (start stop : Nat) (word : String) : Prop where
  isValid_start : String.Pos.Raw.IsValid text ⟨start⟩
  isValid_stop : String.Pos.Raw.IsValid text ⟨stop⟩
  le : start ≤ stop
  extract_eq : String.Pos.Raw.extract text ⟨start⟩ ⟨stop⟩ = word

namespace Cursor

variable {c : Cursor} {text : String}

theorem StandsIn.hasRead (h : c.StandsIn text) : c.HasRead text (c.index text) := by
  obtain ⟨front, rfl, hpos⟩ := h
  have hindex : c.index (front ++ String.ofList c.rest) = front.toList.length := by
    simp [index, String.length_append, String.length_toList]
  refine ⟨?_, ?_, ?_, ?_⟩
  · rw [index]
    exact Nat.sub_le _ _
  · simp [hindex]
  · simp [hindex, hpos, Position.behind]
  · exact String.Pos.Raw.isValid_iff_exists_append.2 ⟨front, _, rfl, by rw [hpos]; rfl⟩

theorem HasRead.getElem?_eq {i : Nat} (h : c.HasRead text i) :
    text.toList[i]? = c.rest.head? := by
  rw [h.rest, List.head?_drop]

theorem StandsIn.length_add_index (h : c.StandsIn text) :
    c.rest.length + c.index text = text.length := by
  obtain ⟨front, rfl, -⟩ := h
  simp [index, String.length_append]
  omega

/-- A step skips blanks, and then reads what is scanned. -/
theorem StandsIn.index_next (h : c.StandsIn text) : c.index text ≤ c.skip.index text ∧
    c.next.2.index text = c.skip.index text + (scan c.skip.rest).text.length := by
  have hblanks := congrArg List.length c.rest_eq
  have hword := congrArg List.length c.rest_skip
  rw [List.length_append] at hblanks hword
  have hc := h.length_add_index
  have hskip := h.skip.length_add_index
  have hnext := h.next.1.length_add_index
  omega

/-- The characters that a step skips, and those that it scans. -/
theorem StandsIn.extract_next (h : c.StandsIn text) :
    text.toList.extract (c.index text) (c.skip.index text) = c.rest.takeWhile isBlank ∧
      text.toList.extract (c.skip.index text) (c.next.2.index text) =
        (scan c.skip.rest).text := by
  have hc := h.length_add_index
  have hskip := h.skip.length_add_index
  have hblanks := congrArg List.length c.rest_eq
  rw [List.length_append] at hblanks
  have hlength : c.skip.index text - c.index text = (c.rest.takeWhile isBlank).length := by omega
  constructor
  · rw [List.extract_eq_take_drop, ← h.hasRead.rest, hlength]
    exact (congrArg _ c.rest_eq).trans List.take_left
  · rw [List.extract_eq_take_drop, ← h.skip.hasRead.rest, h.index_next.2, Nat.add_sub_cancel_left]
    exact (congrArg _ c.rest_skip).trans List.take_left

/-- What is scanned in a step is a slice of the text. -/
theorem StandsIn.isSlice_scan (h : c.StandsIn text) :
    IsSlice text c.skip.position.offset c.next.2.position.offset
      (String.ofList (scan c.skip.rest).text) := by
  obtain ⟨front, htext, hpos⟩ := h.skip
  obtain ⟨word, hword⟩ : ∃ word, word = (scan c.skip.rest).text := ⟨_, rfl⟩
  have hsplit : text = front ++ String.ofList word ++ String.ofList c.next.2.rest := by
    rw [String.append_assoc, ← String.ofList_append, hword, ← rest_skip]
    exact htext
  have hstop : c.next.2.position.offset =
      front.utf8ByteSize + (String.ofList word).utf8ByteSize := by
    rw [next_snd, behind, ← hword, Position.offset_advance, hpos]
    rfl
  refine ⟨h.skip.hasRead.isValid, h.next.1.hasRead.isValid, ?_, ?_⟩
  · rw [hstop, hpos]
    exact Nat.le_add_right _ _
  · rw [hstop, hpos, hsplit, ← hword]
    exact extract_append _ _ _

theorem StandsIn.isSlice_of_ok (h : c.StandsIn text) {l : Lexeme} (hl : c.next.1 = .ok l) :
    IsSlice text l.position.offset c.next.2.position.offset l.text := by
  rw [(outcome_of_next_ok hl).2]
  exact h.isSlice_scan

theorem StandsIn.isSlice_of_malformedNumber (h : c.StandsIn text) {p : Position} {word : String}
    (he : c.next.1 = .error ⟨p, .malformedNumber word⟩) :
    IsSlice text p.offset c.next.2.position.offset word := by
  obtain ⟨hs, rfl⟩ := outcome_of_next_error he
  rcases scan_of_error hs with ⟨hf, -⟩ | ⟨hf, -⟩ | ⟨hf, -⟩ | ⟨x, ds, -, hf, -⟩ <;> cases hf
  exact h.isSlice_scan

/-- What the next step of a cursor of `text` brings, how far it reads, and what the steps behind it
bring. -/
inductive Progress (c : Cursor) (text : String) : Prop
  | lexeme {l : Lexeme} (h : c.next.1 = .ok l) (ht : l.token ≠ .endOfInput)
    (hlt : c.index text < c.next.2.index text)
  | malformedNumber {p : Position} {word : String}
    (h : c.next.1 = .error ⟨p, .malformedNumber word⟩)
    (hlt : c.index text < c.next.2.index text)
  | unterminatedString {p : Position} (h : c.next.1 = .error ⟨p, .unterminatedString⟩)
    (hend : c.next.2.index text = text.length)
  | endOfInput {l : Lexeme} (h : c.next.1 = .ok l) (ht : l.token = .endOfInput)
    (hend : c.next.2.index text = text.length) (hsame : ∀ m, (c.afterSteps m).next.1 = .ok l)
  | point {p : Position} {start : Nat} {word : List Char}
    (h : c.next.1 = .error ⟨p, .invalidCharacter '.'⟩) (hp : p = c.next.2.position)
    (hat : text.toList[c.next.2.index text]? = some '.') (hstart : c.index text ≤ start)
    (hblank : ∀ x ∈ text.toList.extract (c.index text) start, isBlank x = true)
    (hpath : IsPath (text.toList.extract start (c.next.2.index text)))
    (hnext : c.next.2.next.1 = .error ⟨p, .malformedNumber (String.ofList ('.' :: word))⟩)
  | character {p : Position} {x : Char} (h : c.next.1 = .error ⟨p, .invalidCharacter x⟩)
    (hp : p = c.next.2.position) (hat : text.toList[c.next.2.index text]? = some x)
    (hsame : ∀ m, (c.next.2.afterSteps m).next.1 = c.next.1 ∧
      (c.next.2.afterSteps m).index text = c.next.2.index text)

theorem afterSteps_succ (c : Cursor) : ∀ n, c.afterSteps (n + 1) = c.next.2.afterSteps n
  | 0 => rfl
  | n + 1 => congrArg (fun d : Cursor => d.next.2) (c.afterSteps_succ n)

/-- A cursor that a step leaves where it is stays there. -/
theorem afterSteps_eq_self (h : c.next.2 = c) : ∀ n, c.afterSteps n = c
  | 0 => rfl
  | n + 1 => by rw [afterSteps, afterSteps_eq_self h n, h]

/-- In front of nothing but blanks, all steps bring the same end of input. -/
theorem afterSteps_of_blanks (hb : ∀ x ∈ c.rest, isBlank x = true) : ∀ m,
    (c.afterSteps m).next.1 = .ok ⟨.endOfInput, "", c.position.advance c.rest⟩
  | 0 => congrArg Prod.fst (next_blanks c.position hb)
  | m + 1 => by
    have hnext : c.next.2 = ⟨[], c.position.advance c.rest⟩ :=
      congrArg Prod.snd (next_blanks c.position hb)
    rw [afterSteps_succ, hnext, afterSteps_eq_self rfl]
    rfl

/-- In front of a character that fits nowhere, all steps bring the same. -/
theorem afterSteps_of_text_eq_nil (h : (scan c.skip.rest).text = []) (m : Nat) :
    c.next.2.afterSteps m = c.next.2 ∧ c.next.2 = c.skip := by
  have hrest := text_append_rest_scan c.skip.rest
  rw [h, List.nil_append] at hrest
  have hskip : c.next.2 = c.skip := by
    rw [next_snd, behind, h, hrest]
    rfl
  exact ⟨afterSteps_eq_self (by rw [hskip, next_skip, hskip]) m, hskip⟩

section Steps

variable (h : c.StandsIn text)

include h

theorem StandsIn.index_eq_length (hrest : c.rest = []) : c.index text = text.length := by
  have hlength := h.length_add_index
  rwa [hrest, List.length_nil, Nat.zero_add] at hlength

theorem StandsIn.progress_of_ok {t : Token} (ht : (scan c.skip.rest).outcome = .ok t) :
    c.Progress text := by
  by_cases hend : t = .endOfInput
  · subst hend
    obtain ⟨hb, hl⟩ := next_eq_end (Prod.ext (next_of_ok ht) rfl) rfl
    have hrest : c.next.2.rest = [] := by
      rw [next_snd, behind, eq_nil_of_scan ht]
      rfl
    refine .endOfInput (next_of_ok ht) rfl (h.next.1.index_eq_length hrest) fun m => ?_
    rw [afterSteps_of_blanks hb, hl]
  · obtain ⟨hskip, hindex⟩ := h.index_next
    have hpos := List.length_pos_iff.2 (text_scan_ne_nil ht hend)
    exact .lexeme (next_of_ok ht) hend (by omega)

/-- An identifier with a point behind it that starts no segment. -/
theorem StandsIn.progress_of_point {ds : List Char}
    (ht : (scan c.skip.rest).outcome = .error (.invalidCharacter '.'))
    (hpath : IsPath (scan c.skip.rest).text) (hrest : (scan c.skip.rest).rest = '.' :: ds) :
    c.Progress text := by
  obtain ⟨hskip, hindex⟩ := h.index_next
  have hafter : c.next.2.rest = '.' :: ds := by rw [next_snd, behind, hrest]
  have hstay : c.next.2.skip = c.next.2 := by
    have hblank : isBlank '.' = false := by decide
    rw [Cursor.skip, skipBlanks, hafter, List.dropWhile_cons, List.takeWhile_cons, hblank]
    simp [← hafter]
  obtain ⟨hblanks, hword⟩ := h.extract_next
  obtain ⟨word, hscan⟩ := scan_point ds
  rw [← hafter, ← hstay] at hscan
  have hnext : c.next.2.next.1 =
      .error ⟨c.next.2.position, .malformedNumber (String.ofList ('.' :: word))⟩ := by
    rw [next_of_error hscan, hstay]
    rfl
  refine .point (next_of_error ht) rfl ?_ hskip ?_ (hword ▸ hpath) hnext
  · rw [h.next.1.hasRead.getElem?_eq, hafter]
    rfl
  · rw [hblanks]
    exact fun x hx => List.mem_takeWhile_imp hx

theorem StandsIn.progress : c.Progress text := by
  rcases ht : (scan c.skip.rest).outcome with f | t
  · obtain ⟨hskip, hindex⟩ := h.index_next
    rcases scan_of_error ht with ⟨rfl, hrest, -⟩ | ⟨rfl, htext⟩ | ⟨rfl, hpath, ds, hrest⟩ |
      ⟨x, ds, hcs, rfl, htext⟩
    · refine .unterminatedString (next_of_error ht) (h.next.1.index_eq_length ?_)
      rw [next_snd, behind, hrest]
    · have hpos := List.length_pos_iff.2 htext
      exact .malformedNumber (next_of_error ht) (by omega)
    · exact h.progress_of_point ht hpath hrest
    · have hstay := afterSteps_of_text_eq_nil htext
      refine .character (next_of_error ht) rfl ?_ fun m => ?_
      · rw [h.next.1.hasRead.getElem?_eq, (hstay 0).2, hcs]
        rfl
      · rw [(hstay m).1, (hstay 0).2, next_skip]
        exact ⟨rfl, rfl⟩
  · exact h.progress_of_ok ht

end Steps

/-- Lexemes that are passed are what the first steps bring. -/
theorem Passes.afterSteps {c d : Cursor} {lexemes : List Lexeme} (hp : Passes c lexemes d) :
    c.afterSteps lexemes.length = d ∧ lexemes.length + d.rest.length ≤ c.rest.length ∧
      ∀ i (hi : i < lexemes.length), (c.afterSteps i).next.1 = .ok lexemes[i] ∧
        lexemes[i].token ≠ .endOfInput := by
  induction hp with
  | nil c => exact ⟨rfl, by simp, by simp⟩
  | @cons c mid d lexeme lexemes h ht hp ih =>
    obtain ⟨hlast, hle, hall⟩ := ih
    have hlt := length_rest_next_lt h ht
    refine ⟨?_, by simp only [List.length_cons]; omega, fun i hi => ?_⟩
    · rw [List.length_cons, afterSteps_succ, h, hlast]
    · cases i with
      | zero => exact ⟨congrArg Prod.fst h, ht⟩
      | succ i =>
        rw [afterSteps_succ, h]
        exact hall i (Nat.lt_of_succ_lt_succ hi)

/-- A delivery is made by steps up to the first one that brings the end of input or an error. -/
theorem complete_deliver (c : Cursor) : c.deliver.complete =
    (List.range (c.deliver.lexemes.length + 1)).mapM fun i => (c.afterSteps i).next.1 := by
  fun_induction deliver c with
  | case1 c e after h => simp [Delivery.complete, Except.map, afterSteps, h]
  | case2 c lexeme after h ht => simp [Delivery.complete, Except.map, afterSteps, h]
  | case3 c lexeme after h ht _ rest ih =>
    have hshift : (fun i => (c.afterSteps i).next.1) ∘ Nat.succ =
        fun i => (after.afterSteps i).next.1 := by
      funext i
      rw [Function.comp_apply, afterSteps_succ, h]
    rw [List.length_cons, List.range_succ_eq_map, List.mapM_cons, List.mapM_map, hshift, ← ih,
      afterSteps, h]
    rw [Delivery.complete, Delivery.complete]
    cases rest.ending <;> rfl

/-- A text is delivered by the steps up to the first that brings the end of input or an error. -/
theorem exists_tokenize_eq (text : String) : ∃ k ≤ text.length,
    (∀ i < k, ∃ l, ((ofText text).afterSteps i).next.1 = .ok l ∧ l.token ≠ .endOfInput) ∧
      (∀ l, ((ofText text).afterSteps k).next.1 = .ok l → l.token = .endOfInput) ∧
      tokenize text = (List.range (k + 1)).mapM fun i => ((ofText text).afterSteps i).next.1 := by
  obtain ⟨d, hp, hd⟩ := (ofText text).exists_passes_deliver
  obtain ⟨hlast, hle, hall⟩ := hp.afterSteps
  refine ⟨_, ?_, fun i hi => ⟨_, hall i hi⟩, fun l hl => ?_, complete_deliver _⟩
  · have hlength : (ofText text).rest.length = text.length := String.length_toList
    omega
  · rw [hlast, hd] at hl
    exact token_ending_deliver _ hl

end Cursor

/-- However often a cursor of a text is stepped, errors on the way or not, it has read a front of
the text, which never gets shorter, and what it tells of the text is a slice of it. Each step reads
on, or ends the text, or from then on all steps bring the same. So a text is delivered in at most
one step more than it has characters. -/
theorem steps_make_progress (text : String) :
    (∀ n, ((Cursor.ofText text).afterSteps n).HasRead text
      (((Cursor.ofText text).afterSteps n).index text)) ∧
    (Monotone fun n => ((Cursor.ofText text).afterSteps n).index text) ∧
    (∀ n, (∀ l, ((Cursor.ofText text).afterSteps n).next.1 = .ok l →
        IsSlice text l.position.offset ((Cursor.ofText text).afterSteps (n + 1)).position.offset
          l.text) ∧
      ∀ p word, ((Cursor.ofText text).afterSteps n).next.1 = .error ⟨p, .malformedNumber word⟩ →
        IsSlice text p.offset ((Cursor.ofText text).afterSteps (n + 1)).position.offset word) ∧
    (∀ n, ((Cursor.ofText text).afterSteps n).Progress text) ∧
    ∃ k ≤ text.length,
      (∀ i < k, ∃ l, ((Cursor.ofText text).afterSteps i).next.1 = .ok l ∧
        l.token ≠ .endOfInput) ∧
      (∀ l, ((Cursor.ofText text).afterSteps k).next.1 = .ok l → l.token = .endOfInput) ∧
      tokenize text =
        (List.range (k + 1)).mapM fun i => ((Cursor.ofText text).afterSteps i).next.1 := by
  have hstand := (Cursor.standsIn_ofText text).afterSteps
  refine ⟨fun n => (hstand n).hasRead, monotone_nat_of_le_succ fun n => ?_,
    fun n => ⟨fun l hl => ?_, fun p word he => ?_⟩, fun n => (hstand n).progress,
    Cursor.exists_tokenize_eq text⟩
  · obtain ⟨hskip, hindex⟩ := (hstand n).index_next
    exact hskip.trans (hindex ▸ Nat.le_add_right _ _)
  · exact (hstand n).isSlice_of_ok hl
  · exact (hstand n).isSlice_of_malformedNumber he

/-- The point behind an identifier is refused, and read in the next step; the character behind it is
refused in all steps to come. -/
example : (List.range 4).map (fun i => ((Cursor.ofText "a.#").afterSteps i).next.1) =
    [.error ⟨⟨1, 1, 2⟩, .invalidCharacter '.'⟩, .error ⟨⟨1, 1, 2⟩, .malformedNumber "."⟩,
      .error ⟨⟨2, 1, 3⟩, .invalidCharacter '#'⟩, .error ⟨⟨2, 1, 3⟩, .invalidCharacter '#'⟩] := by
  rfl

end FilterQuery
