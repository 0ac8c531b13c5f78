import FilterQuery.Proofs.Boundary
import FilterQuery.Proofs.Rounding
import Mathlib.Data.List.Flatten

/-!
# How tokens are written

The text of each token, read by itself, is that token again (`scan_of_spells`). An identifier is
written as its name, which is a path of segments and no reserved word; a number with a point may be
written with any digits that round to it, and its exact value has such digits (`exists_isNumeral`);
everything else has one text here. In the other direction, whatever is read can be written
(`isWritable_scan`).
-/

namespace FilterQuery

section Identifiers

variable {cs : List Char}

/-- A letter or an underscore, and behind it letters, digits and underscores. -/
def IsSegment (cs : List Char) : Prop :=
  startsSegment cs = true ∧ ∀ c ∈ cs, isWordChar c = true

/-- Segments with points between them. -/
def IsPath (cs : List Char) : Prop :=
  ∃ (first : List Char) (rest : List (List Char)), IsSegment first ∧
    (∀ s ∈ rest, IsSegment s) ∧ cs = first ++ rest.flatMap ('.' :: ·)

theorem splitPath_append_wordChars (r : List Char) : ∀ {word : List Char},
    (∀ c ∈ word, isWordChar c = true) →
      splitPath (word ++ r) = (word ++ (splitPath r).1, (splitPath r).2)
  | [], _ => rfl
  | c :: word, h => by
    have hc : isWordChar c = true := h c List.mem_cons_self
    have ih := splitPath_append_wordChars r fun d hd => h d (List.mem_cons_of_mem c hd)
    rw [List.cons_append, splitPath, if_pos (by simp [hc]), ih]
    rfl

theorem startsSegment_append (h : startsSegment cs = true) (r : List Char) :
    startsSegment (cs ++ r) = true := by
  cases cs with
  | nil => cases h
  | cons c cs => exact h

theorem splitPath_of_isPath (h : IsPath cs) : splitPath cs = (cs, []) := by
  obtain ⟨first, rest, hf, hr, rfl⟩ := h
  have hrest : splitPath (rest.flatMap ('.' :: ·)) = (rest.flatMap ('.' :: ·), []) := by
    induction rest with
    | nil => rfl
    | cons s rest ih =>
      have hs : IsSegment s := hr s List.mem_cons_self
      have ih := ih fun u hu => hr u (List.mem_cons_of_mem s hu)
      have hseg := startsSegment_append hs.1 (rest.flatMap ('.' :: ·))
      rw [List.flatMap_cons, List.cons_append, splitPath, if_pos (by simp [hseg]),
        splitPath_append_wordChars _ hs.2, ih]
  rw [splitPath_append_wordChars _ hf.2, hrest]

/-- What is read of a path are the rest of a segment and the segments behind it. -/
theorem splitPath_eq_segments : ∀ cs : List Char,
    ∃ (word : List Char) (rest : List (List Char)), (∀ c ∈ word, isWordChar c = true) ∧
      (∀ s ∈ rest, IsSegment s) ∧ (splitPath cs).1 = word ++ rest.flatMap ('.' :: ·) ∧
      (startsSegment cs = true → startsSegment word = true)
  | [] => ⟨[], [], by simp, by simp, rfl, id⟩
  | c :: cs => by
    obtain ⟨word, rest, hw, hr, hs, hstart⟩ := splitPath_eq_segments cs
    by_cases hc : isWordChar c = true
    · refine ⟨c :: word, rest, ?_, hr, ?_, id⟩
      · simpa [hc] using hw
      · rw [splitPath, if_pos (by simp [hc]), hs]
        rfl
    have hn : startsSegment (c :: cs) = true → False := fun h => hc (isWordChar_of_isWordStart h)
    by_cases hp : c = '.' ∧ startsSegment cs = true
    · obtain ⟨rfl, hseg⟩ := hp
      refine ⟨[], word :: rest, by simp, ?_, ?_, fun h => (hn h).elim⟩
      · simpa using ⟨⟨hstart hseg, hw⟩, hr⟩
      · rw [splitPath, if_pos (by simp [hseg]), hs]
        rfl
    · refine ⟨[], [], by simp, by simp, ?_, fun h => (hn h).elim⟩
      rw [splitPath, if_neg (by simpa [hc] using hp)]
      rfl

theorem isPath_splitPath {c : Char} (h : isWordStart c = true) (cs : List Char) :
    IsPath (splitPath (c :: cs)).1 := by
  obtain ⟨word, rest, hw, hr, hs, hstart⟩ := splitPath_eq_segments (c :: cs)
  exact ⟨word, rest, ⟨hstart h, hw⟩, hr, hs⟩

theorem IsPath.exists_cons (h : IsPath cs) : ∃ c ds, cs = c :: ds ∧ isWordStart c = true := by
  obtain ⟨first, rest, ⟨hf, -⟩, -, rfl⟩ := h
  cases first with
  | nil => cases hf
  | cons c first => exact ⟨c, _, rfl, hf⟩

theorem isPath_iff : IsPath cs ↔ startsSegment cs = true ∧ (splitPath cs).2 = [] := by
  refine ⟨fun h => ?_, fun ⟨hs, hr⟩ => ?_⟩
  · obtain ⟨c, ds, rfl, hc⟩ := h.exists_cons
    exact ⟨hc, by rw [splitPath_of_isPath h]⟩
  · cases cs with
    | nil => cases hs
    | cons c ds =>
      have hp := isPath_splitPath hs ds
      have hall := splitPath_append (c :: ds)
      rw [hr, List.append_nil] at hall
      rwa [hall] at hp

instance : DecidablePred IsPath := fun _ => decidable_of_iff _ isPath_iff.symm

end Identifiers

section Writable

variable {t : Token} {cs : List Char}

/-- The tokens that have a text of their own: an identifier must be a path and not reserved, and a
number must be one that is not too great. -/
def Token.IsWritable : Token → Prop
  | .identifier name => IsPath name.toList ∧ ofReserved? name = none
  | .literal (.int n) => isInt64 n = true
  | .literal (.float x) => ∃ y, x = .finite y
  | .endOfInput => False
  | _ => True

instance : DecidablePred Token.IsWritable
  | .identifier name => inferInstanceAs (Decidable (IsPath name.toList ∧ _ = _))
  | .literal (.int n) => inferInstanceAs (Decidable (isInt64 n = true))
  | .literal (.float (.finite x)) => .isTrue ⟨x, rfl⟩
  | .literal (.float (.infinite _)) => .isFalse fun ⟨_, h⟩ => by cases h
  | .literal (.float .nan) => .isFalse fun ⟨_, h⟩ => by cases h
  | .endOfInput => .isFalse id
  | .literal .null | .literal (.bool _) | .literal (.string _) | .comparison _ | .keyword _
  | .openParen | .closeParen | .comma => .isTrue trivial

theorem isWritable_of_splitSymbol {text rest : List Char}
    (h : splitSymbol cs = some (t, text, rest)) : t.IsWritable := by
  unfold splitSymbol at h
  split at h <;> cases h <;> trivial

theorem isWritable_of_eq_ofWord {word : String} (ht : t = .ofWord word) (h : IsPath word.toList) :
    t.IsWritable := by
  rw [ht]
  exact Token.ofWord_cases (p := Token.IsWritable) word
    (by simp [Token.reserved, Token.IsWritable]) fun hr => ⟨h, hr⟩

/-- What is read can be written. -/
theorem isWritable_scan (h : (scan cs).outcome = .ok t) (ht : t ≠ .endOfInput) : t.IsWritable := by
  rcases scan_cases h ht with hs | ⟨ds, body, rfl, -, rfl⟩ | ⟨c, ds, rfl, hw, -, hword⟩ |
    ⟨c, ds, v, rfl, -, hv, rfl⟩
  · exact isWritable_of_splitSymbol hs
  · trivial
  · have hpath : IsPath (String.ofList (splitPath (c :: ds)).1).toList := by
      rw [String.toList_ofList]
      exact isPath_splitPath hw ds
    exact isWritable_of_eq_ofWord hword hpath
  · rcases Literal.ofNumber?_eq_some hv with ⟨n, hn, rfl⟩ | ⟨x, rfl⟩
    · exact hn
    · exact ⟨x, rfl⟩

end Writable

def signChars (negative : Bool) : List Char :=
  if negative then ['-'] else []

/-- Digits on both sides of a point, with a minus sign or none, that round to `x`. -/
def Finite64.IsNumeral (x : Finite64) (word : List Char) : Prop :=
  ∃ negative whole fraction, whole ≠ [] ∧ fraction ≠ [] ∧ (∀ c ∈ whole, c.isDigit = true) ∧
    (∀ c ∈ fraction, c.isDigit = true) ∧
    word = signChars negative ++ (whole ++ '.' :: fraction) ∧
    Binary64.ofDecimal (.ofDigits negative whole fraction 0) = .finite x

/-- The texts of a literal: any numeral of a number with a point, and one text otherwise. -/
inductive Literal.Spells : Literal → List Char → Prop
  | numeral {x : Finite64} {word : List Char} (h : x.IsNumeral word) :
    Spells (.float (.finite x)) word
  | text {v : Literal} (h : ∀ x, v ≠ .float x) : Spells v v.toText.toList

inductive Token.Spells : Token → List Char → Prop
  | literal {v : Literal} {word : List Char} (h : v.Spells word) : Spells (.literal v) word
  | text {t : Token} (h : ∀ v, t ≠ .literal v) : Spells t t.toText.toList

theorem exists_digits (n k : Nat) : ∃ whole fraction, whole ≠ [] ∧ fraction.length = k ∧
    (∀ c ∈ whole, c.isDigit = true) ∧ (∀ c ∈ fraction, c.isDigit = true) ∧
    Decimal.natOfDigits (whole ++ fraction) = n := by
  -- as many zeros in front that a digit is left for the place in front of the point
  have hdigits : ∀ c ∈ List.replicate (k + 1) '0' ++ Nat.toDigits 10 n, c.isDigit = true := by
    intro c hc
    rcases List.mem_append.1 hc with hc | hc
    · rw [List.eq_of_mem_replicate hc]
      decide
    · exact Nat.isDigit_of_mem_toDigits (by decide) (by decide) hc
  have hvalue : Decimal.natOfDigits (List.replicate (k + 1) '0' ++ Nat.toDigits 10 n) = n := by
    rw [Decimal.natOfDigits, Nat.ofDigitChars_append, Nat.ofDigitChars_replicate_zero,
      Nat.mul_zero, Nat.ofDigitChars_ten_toDigits]
  have hlength : k < (List.replicate (k + 1) '0' ++ Nat.toDigits 10 n).length := by
    rw [List.length_append, List.length_replicate]
    omega
  revert hdigits hvalue hlength
  generalize List.replicate (k + 1) '0' ++ Nat.toDigits 10 n = ds
  intro hdigits hvalue hlength
  refine ⟨ds.take (ds.length - k), ds.drop (ds.length - k), ?_, ?_,
    fun c hc => hdigits c (List.mem_of_mem_take hc),
    fun c hc => hdigits c (List.mem_of_mem_drop hc), by rw [List.take_append_drop, hvalue]⟩
  · rw [← List.length_pos_iff, List.length_take]
    omega
  · rw [List.length_drop]
    omega

/-- Every finite number is a decimal number with digits on both sides of the point. -/
theorem Finite64.exists_isNumeral (x : Finite64) : ∃ word, x.IsNumeral word := by
  -- the number without a fraction, or with as many digits as it has binary places
  obtain ⟨n, k, hk, hn⟩ : ∃ n k, k ≠ 0 ∧ n * Nat.pow 2 (-x.exponent).toNat =
      x.mantissa * (Nat.pow 10 k * Nat.pow 2 x.exponent.toNat) := by
    by_cases he : 0 ≤ x.exponent
    · refine ⟨x.mantissa * Nat.pow 2 x.exponent.toNat * 10, 1, Nat.one_ne_zero, ?_⟩
      have : (-x.exponent).toNat = 0 := by omega
      rw [this]
      simp
      ring
    · refine ⟨x.mantissa * 5 ^ (-x.exponent).toNat, (-x.exponent).toNat, by omega, ?_⟩
      have : x.exponent.toNat = 0 := by omega
      rw [this]
      simp [Nat.mul_assoc]
      exact .inl (Nat.mul_pow 5 2 _).symm
  obtain ⟨whole, fraction, hw, hf, hwd, hfd, hv⟩ := exists_digits n k
  refine ⟨_, x.negative, whole, fraction, hw, ?_, hwd, hfd, rfl, ?_⟩
  · intro heq
    subst heq
    exact hk hf.symm
  · have hd : Nat.pow 10 k ≠ 0 := (Nat.pow_pos (by decide)).ne'
    rw [← Binary64.ofQuotient_of_eq hd hn, Binary64.ofDecimal]
    simp [Decimal.ofDigits, hv, hf]

theorem Token.IsWritable.exists_spells {t : Token} (h : t.IsWritable) :
    ∃ word, t.Spells word := by
  cases t with
  | literal v =>
    cases v with
    | float x =>
      obtain ⟨y, rfl⟩ := h
      obtain ⟨word, hy⟩ := y.exists_isNumeral
      exact ⟨word, .literal (.numeral hy)⟩
    | _ => exact ⟨_, .literal (.text fun _ hv => by cases hv)⟩
  | _ => exact ⟨_, .text fun _ ht => by cases ht⟩

section Reading

variable {c : Char} {word cs : List Char} {t : Token} {v : Literal}

theorem isNumberStart_of_isDigit (h : c.isDigit = true) : isNumberStart c = true := by
  simp [isNumberStart, h]

theorem isNumberChar_of_isDigit_or_point (h : ∀ c ∈ cs, c.isDigit = true ∨ c = '.') :
    ∀ c ∈ cs, isNumberChar c = true := by
  intro c hc
  rcases h c hc with hd | rfl
  · exact isNumberChar_of_isDigit hd
  · decide

theorem scan_number (negative : Bool) (hc : c.isDigit = true)
    (hcs : ∀ d ∈ cs, d.isDigit = true ∨ d = '.')
    (hv : Literal.ofNumber? (signChars negative ++ c :: cs) = some v) :
    scan (signChars negative ++ c :: cs) =
      ⟨.ok (.literal v), signChars negative ++ c :: cs, []⟩ := by
  have hall := isNumberChar_of_isDigit_or_point hcs
  cases negative with
  | true =>
    have hall' : ∀ d ∈ c :: cs, isNumberChar d = true := by
      simpa [isNumberChar_of_isDigit hc] using hall
    have hsplit : splitNumber ('-' :: c :: cs) = ('-' :: c :: cs, []) := by
      rw [splitNumber_cons rfl, List.takeWhile_eq_self_iff.2 hall',
        List.dropWhile_eq_nil_iff.2 hall']
    exact (scan_of_isNumberStart rfl _).trans (scanNumber_of_split hsplit hv)
  | false =>
    have hstart := isNumberStart_of_isDigit hc
    have hsplit : splitNumber (c :: cs) = (c :: cs, []) := by
      rw [splitNumber_cons hstart, List.takeWhile_eq_self_iff.2 hall,
        List.dropWhile_eq_nil_iff.2 hall]
    exact (scan_of_isNumberStart hstart _).trans (scanNumber_of_split hsplit hv)

/-- The literal that a number word without its sign writes. -/
def Literal.ofUnsigned? (negative : Bool) (digits : List Char) : Option Literal :=
  if digits.takeWhile Char.isDigit = [] then none
  else match digits.dropWhile Char.isDigit with
    | [] =>
      let n : Int := Decimal.natOfDigits (digits.takeWhile Char.isDigit)
      let n := if negative then -n else n
      if isInt64 n then some (.int n) else none
    | '.' :: fraction =>
      if fraction ≠ [] ∧ fraction.all Char.isDigit then
        (Binary64.ofDecimal
          (.ofDigits negative (digits.takeWhile Char.isDigit) fraction 0)).finite?.map fun x =>
            .float (.finite x)
      else none
    | _ => none

theorem Literal.ofNumber?_append_signChars (negative : Bool) (hc : c.isDigit = true)
    (cs : List Char) :
    ofNumber? (signChars negative ++ c :: cs) = ofUnsigned? negative (c :: cs) := by
  cases negative with
  | true => rfl
  | false =>
    unfold ofNumber?
    split
    rename_i x ng dg heq
    simp [signChars] at heq
    split at heq
    · rename_i heq'; cases heq'; exact absurd hc (by decide)
    · cases heq
      rfl

theorem Literal.ofUnsigned?_whole (negative : Bool) (hcs : ∀ d ∈ c :: cs, d.isDigit = true)
    {n : Int} (hn : (if negative then -(Decimal.natOfDigits (c :: cs) : Int)
      else Decimal.natOfDigits (c :: cs)) = n) (h64 : isInt64 n = true) :
    ofUnsigned? negative (c :: cs) = some (.int n) := by
  rw [ofUnsigned?, List.takeWhile_eq_self_iff.2 hcs, List.dropWhile_eq_nil_iff.2 hcs, if_neg nofun]
  simp only [hn, h64, if_true]

theorem Literal.ofUnsigned?_fraction (negative : Bool) {whole fraction : List Char}
    (hw : ∀ d ∈ whole, d.isDigit = true) (hf : ∀ d ∈ fraction, d.isDigit = true)
    (hw' : whole ≠ []) (hf' : fraction ≠ []) {x : Finite64}
    (hx : Binary64.ofDecimal (.ofDigits negative whole fraction 0) = .finite x) :
    ofUnsigned? negative (whole ++ '.' :: fraction) = some (.float (.finite x)) := by
  have htake : (whole ++ '.' :: fraction).takeWhile Char.isDigit = whole := by
    rw [List.takeWhile_append_of_pos hw, List.takeWhile_cons_of_neg (by decide), List.append_nil]
  have hdrop : (whole ++ '.' :: fraction).dropWhile Char.isDigit = '.' :: fraction := by
    rw [List.dropWhile_append_of_pos hw, List.dropWhile_cons_of_neg (by decide)]
  rw [ofUnsigned?, htake, hdrop, if_neg hw']
  simp only
  rw [if_pos ⟨hf', List.all_eq_true.2 hf⟩, hx]
  rfl

theorem toList_toString_int (n : Int) :
    (toString n).toList = signChars (n < 0) ++ Nat.toDigits 10 n.natAbs := by
  cases n with
  | ofNat m =>
    have hn : ¬(Int.ofNat m < 0) := by simp
    simp only [hn, decide_false]
    exact Nat.toList_repr
  | negSucc m =>
    have hn : Int.negSucc m < 0 := Int.negSucc_lt_zero m
    simp only [hn, decide_true]
    change ("-" ++ Nat.repr (m + 1)).toList = _
    rw [String.toList_append, Nat.toList_repr]
    rfl

theorem Quoted.split_escape : ∀ cs : List Char,
    split (escape cs ++ ['\'']) = some ⟨cs, escape cs ++ ['\''], []⟩
  | [] => rfl
  | c :: cs => by
    have ih := split_escape cs
    by_cases hc : c = '\'' ∨ c = '\\'
    · rw [escape_cons, if_pos hc, List.cons_append, List.cons_append, split, ih]
      simp [unescape, hc]
    · rw [escape_cons, if_neg hc, List.cons_append, split_cons (fun h => hc (.inl h))
        (fun h => hc (.inr h)), ih]
      rfl

theorem scan_string (s : String) : scan (Quoted.encode s).toList =
    ⟨.ok (.literal (.string s)), (Quoted.encode s).toList, []⟩ := by
  rw [Quoted.encode, String.toList_ofList, scan_of_quote, scanString, Quoted.split_escape]
  simp only [String.ofList_toList]

theorem scan_identifier {name : String} (hp : IsPath name.toList)
    (hr : Token.ofReserved? name = none) :
    scan name.toList = ⟨.ok (.identifier name), name.toList, []⟩ := by
  obtain ⟨c, cs, hcs, hc⟩ := hp.exists_cons
  have hsplit := splitPath_of_isPath hp
  rw [hcs] at hsplit ⊢
  rw [scan_of_isWordStart hc, scanWord_of_split hsplit (by simp), ← hcs, String.ofList_toList,
    Token.ofWord, hr]
  rfl

theorem scan_int {n : Int} (h : isInt64 n = true) :
    scan (toString n).toList = ⟨.ok (.literal (.int n)), (toString n).toList, []⟩ := by
  have hdigits : ∀ d ∈ Nat.toDigits 10 n.natAbs, d.isDigit = true := fun d hd =>
    Nat.isDigit_of_mem_toDigits (by decide) (by decide) hd
  have hvalue : Decimal.natOfDigits (Nat.toDigits 10 n.natAbs) = n.natAbs :=
    Nat.ofDigitChars_ten_toDigits
  rw [toList_toString_int]
  rcases hcs : Nat.toDigits 10 n.natAbs with _ | ⟨c, cs⟩
  · exact absurd hcs Nat.toDigits_ne_nil
  rw [hcs] at hdigits hvalue
  have hc : c.isDigit = true := hdigits c List.mem_cons_self
  have hn : (if decide (n < 0) = true then -(Decimal.natOfDigits (c :: cs) : Int)
      else Decimal.natOfDigits (c :: cs)) = n := by
    rw [hvalue]
    simp only [decide_eq_true_eq]
    omega
  refine scan_number _ hc (fun d hd => .inl (hdigits d (List.mem_cons_of_mem c hd))) ?_
  rw [Literal.ofNumber?_append_signChars _ hc, Literal.ofUnsigned?_whole _ hdigits hn h]

theorem scan_numeral {x : Finite64} (h : x.IsNumeral word) :
    scan word = ⟨.ok (.literal (.float (.finite x))), word, []⟩ := by
  obtain ⟨negative, whole, fraction, hw', hf', hw, hf, rfl, hx⟩ := h
  have hv := Literal.ofUnsigned?_fraction negative hw hf hw' hf' hx
  obtain ⟨c, cs, rfl⟩ := List.exists_cons_of_ne_nil hw'
  have hc : c.isDigit = true := hw c List.mem_cons_self
  rw [List.cons_append] at hv ⊢
  refine scan_number negative hc (fun d hd => ?_) ?_
  · rcases List.mem_append.1 hd with hd | hd
    · exact .inl (hw d (List.mem_cons_of_mem c hd))
    · exact (List.mem_cons.1 hd).symm.imp_left (hf d)
  · rw [Literal.ofNumber?_append_signChars _ hc, hv]

theorem scan_literal (hv : (Token.literal v).IsWritable) (h : v.Spells word) :
    scan word = ⟨.ok (.literal v), word, []⟩ := by
  cases h with
  | numeral h => exact scan_numeral h
  | text h =>
    cases v with
    | null => rfl
    | bool b => cases b <;> rfl
    | int n => exact scan_int hv
    | float x => exact absurd rfl (h x)
    | string s => exact scan_string s

theorem scan_of_spells (ht : t.IsWritable) (h : t.Spells word) : scan word = ⟨.ok t, word, []⟩ := by
  cases h with
  | literal h => exact scan_literal ht h
  | text h =>
    cases t with
    | literal v => exact absurd rfl (h v)
    | identifier name => exact scan_identifier ht.1 ht.2
    | comparison op => cases op <;> rfl
    | keyword word => cases word <;> rfl
    | openParen => rfl
    | closeParen => rfl
    | comma => rfl
    | endOfInput => exact ht.elim

theorem Token.IsWritable.ne_endOfInput (h : t.IsWritable) : t ≠ .endOfInput := by
  intro heq
  subst heq
  exact h

/-- A token is read from its texts in front of anything that would not be read along with it. -/
theorem scan_append_of_spells (ht : t.IsWritable) (h : t.Spells word) {r : List Char}
    (hr : ∀ c ∈ r.head?, t.gluesTo c = false) : scan (word ++ r) = ⟨.ok t, word, r⟩ :=
  scan_append (scan_of_spells ht h) ht.ne_endOfInput hr

end Reading

end FilterQuery
