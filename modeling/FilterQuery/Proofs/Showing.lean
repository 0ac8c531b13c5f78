import FilterQuery.Number.Layout
import FilterQuery.Proofs.Cutting
import FilterQuery.Proofs.Numerals
import FilterQuery.Proofs.Shortest

/-!
# Numbers as text

The text of a number is a number again as long as it is written without an exponent: then it has
digits on both sides of a point that write the shortest digits (`Decimal.isPointed_toText`), and
these read back. With an exponent it has a letter in it, which no number has, so what is read of it
is a fault (`exists_tokenize_of_exponent`). Whether there is an exponent is told by the number
itself: the shortest digits lie on its side of `10 ^ -4` and of `10 ^ 16`
(`Finite64.isPlain_iff`).
-/

namespace FilterQuery

/-- Whether a text shows the literal without an exponent. -/
def Literal.IsInPlace : Literal → Prop
  | .float (.finite x) =>
    x.absolute = 0 ∨ 10 ^ (-4 : Int) ≤ x.absolute ∧ x.absolute < 10 ^ (16 : Int)
  | _ => True

namespace Decimal

/-- Whether a layout writes the number without an exponent. -/
def IsPlain (layout : Layout) (d : Decimal) : Prop :=
  d.coefficient = 0 ∨ layout.leastPlain ≤ d.magnitude ∧ d.magnitude ≤ layout.greatestPlain

theorem natOfDigits_replicate_append (n : Nat) (ds : List Char) :
    natOfDigits (List.replicate n '0' ++ ds) = natOfDigits ds := by
  rw [natOfDigits, Nat.ofDigitChars_append, Nat.ofDigitChars_replicate_zero, Nat.mul_zero,
    natOfDigits]

theorem natOfDigits_append_replicate (n : Nat) (ds : List Char) :
    natOfDigits (ds ++ List.replicate n '0') = natOfDigits ds * 10 ^ n := by
  rw [natOfDigits, Nat.ofDigitChars_append, Nat.ofDigitChars_replicate_zero, Nat.mul_comm,
    natOfDigits]

theorem natOfDigits_toDigits (n : Nat) : natOfDigits (Nat.toDigits 10 n) = n :=
  Nat.ofDigitChars_ten_toDigits

/-- Behind the significant digits come zeros. -/
theorem exists_toDigits_eq (d : Decimal) :
    ∃ n, Nat.toDigits 10 d.coefficient = d.significant ++ List.replicate n '0' := by
  obtain ⟨ds, hds⟩ : ∃ ds, ds = (Nat.toDigits 10 d.coefficient).reverse := ⟨_, rfl⟩
  have hzeros : ds.takeWhile (· = '0') = List.replicate (ds.takeWhile (· = '0')).length '0' :=
    List.eq_replicate_of_mem fun c hc => by simpa using List.mem_takeWhile_imp hc
  refine ⟨(ds.takeWhile (· = '0')).length, ?_⟩
  rw [significant, ← hds, ← List.reverse_replicate, ← hzeros, ← List.reverse_append,
    List.takeWhile_append_dropWhile, hds, List.reverse_reverse]

theorem isDigit_significant (d : Decimal) : ∀ c ∈ d.significant, c.isDigit = true := by
  intro c hc
  obtain ⟨n, hn⟩ := d.exists_toDigits_eq
  have hmem : c ∈ Nat.toDigits 10 d.coefficient := hn ▸ List.mem_append_left _ hc
  exact Nat.isDigit_of_mem_toDigits (by decide) (by decide) hmem

theorem significant_ne_nil {d : Decimal} (h : d.coefficient ≠ 0) : d.significant ≠ [] := by
  intro hnil
  obtain ⟨n, hn⟩ := d.exists_toDigits_eq
  refine h ?_
  rw [← natOfDigits_toDigits d.coefficient, hn, natOfDigits_append_replicate, hnil]
  exact Nat.zero_mul _

/-- The number is that of its significant digits, with the first one at the place of
`10 ^ magnitude`. -/
theorem absolute_eq_significant (d : Decimal) : d.absolute =
    natOfDigits d.significant * 10 ^ (d.magnitude + 1 - d.significant.length) := by
  obtain ⟨n, hn⟩ := d.exists_toDigits_eq
  have hcoefficient : d.coefficient = natOfDigits d.significant * 10 ^ n := by
    rw [← natOfDigits_append_replicate, ← hn, natOfDigits_toDigits]
  have hexponent : d.magnitude + 1 - d.significant.length = d.exponent + n := by
    rw [magnitude, width, hn, List.length_append, List.length_replicate]
    push_cast
    ring
  rw [absolute, hexponent, zpow_add₀ (by norm_num), zpow_natCast, hcoefficient]
  push_cast
  ring

/-- The magnitude is the greatest power of ten that is not above the number. -/
theorem zpow_le_absolute_iff {d : Decimal} (h : d.coefficient ≠ 0) (k : Int) :
    10 ^ k ≤ d.absolute ↔ k ≤ d.magnitude := by
  have hpos : (0 : ℚ) < 10 ^ d.exponent := zpow_pos (by norm_num) _
  have hwidth : 0 < d.width := Nat.length_toDigits_pos
  have hlt : d.coefficient < 10 ^ d.width :=
    (Nat.length_toDigits_le_iff (by decide) hwidth).1 le_rfl
  have hle : 10 ^ (d.width - 1) ≤ d.coefficient := by
    rcases Nat.eq_zero_or_pos (d.width - 1) with hz | hp
    · rw [hz]
      exact Nat.one_le_iff_ne_zero.2 h
    · refine Nat.le_of_not_lt fun hn => ?_
      have : d.width ≤ d.width - 1 := (Nat.length_toDigits_le_iff (by decide) hp).2 hn
      omega
  have hlow : (10 : ℚ) ^ d.magnitude ≤ d.absolute := by
    have hm : d.magnitude = ((d.width - 1 : ℕ) : Int) + d.exponent := by rw [magnitude]; omega
    rw [hm, zpow_add₀ (by norm_num), zpow_natCast, absolute]
    gcongr
    exact_mod_cast hle
  have hup : d.absolute < (10 : ℚ) ^ (d.magnitude + 1) := by
    have hm : d.magnitude + 1 = (d.width : Int) + d.exponent := by rw [magnitude]; omega
    rw [hm, zpow_add₀ (by norm_num), zpow_natCast, absolute]
    gcongr
    exact_mod_cast hlt
  constructor
  · intro hk
    have := (zpow_lt_zpow_iff_right₀ (by norm_num : (1 : ℚ) < 10)).1 (lt_of_le_of_lt hk hup)
    omega
  · intro hk
    exact le_trans (zpow_le_zpow_right₀ (by norm_num) hk) hlow

/-- Digits that are written in place have digits on both sides of a point. -/
theorem isPointed_plain (negative : Bool) {ds : List Char} (hne : ds ≠ [])
    (hd : ∀ c ∈ ds, c.isDigit = true) (m : Int) :
    IsPointed (signChars negative ++ plain ds m) negative
      (natOfDigits ds * 10 ^ (m + 1 - ds.length)) := by
  have hzeros : ∀ n, ∀ c ∈ List.replicate n '0', c.isDigit = true := fun n c hc => by
    rw [List.eq_of_mem_replicate hc]
    decide
  have hten : (10 : ℚ) ≠ 0 := by norm_num
  rw [plain]
  split
  · rename_i hm
    refine ⟨['0'], List.replicate (-m - 1).toNat '0' ++ ds, by simp, by simp [hne],
      hzeros 1, List.forall_mem_append.2 ⟨hzeros _, hd⟩, rfl, ?_⟩
    have hvalue : natOfDigits (['0'] ++ (List.replicate (-m - 1).toNat '0' ++ ds)) =
        natOfDigits ds := by
      rw [← List.append_assoc]
      exact natOfDigits_replicate_append ((-m - 1).toNat + 1) ds
    obtain ⟨n, hn⟩ := Int.eq_ofNat_of_zero_le (show 0 ≤ -m - 1 by omega)
    have hexponent : m + 1 - ds.length = -((n + ds.length : ℕ) : Int) := by push_cast; omega
    rw [hvalue, hexponent, zpow_neg, zpow_natCast, List.length_append, List.length_replicate, hn,
      Int.toNat_natCast, div_eq_mul_inv]
  · rename_i hm
    obtain ⟨n, rfl⟩ := Int.eq_ofNat_of_zero_le (show 0 ≤ m by omega)
    rw [Int.toNat_natCast]
    by_cases hlength : ds.length ≤ n + 1
    · -- all digits stand in front of the point
      refine ⟨ds ++ List.replicate (n + 1 - ds.length) '0', ['0'], by simp [hne], by simp,
        List.forall_mem_append.2 ⟨hd, hzeros _⟩, hzeros 1, ?_, ?_⟩
      · simp [List.take_of_length_le hlength, List.drop_of_length_le hlength]
      · have hexponent : ((n : Int) + 1 - ds.length) = ((n + 1 - ds.length : ℕ) : Int) := by omega
        rw [List.append_assoc, ← List.replicate_succ', natOfDigits_append_replicate, hexponent,
          zpow_natCast, pow_succ]
        push_cast
        field_simp
        simp
    · refine ⟨ds.take (n + 1), ds.drop (n + 1), by simp [hne], by simp; omega,
        fun c hc => hd c (List.mem_of_mem_take hc), fun c hc => hd c (List.mem_of_mem_drop hc),
        ?_, ?_⟩
      · have hzero : n + 1 - ds.length = 0 := by omega
        simp [hzero]
        omega
      · have hexponent : (n : Int) + 1 - ds.length = -((ds.length - (n + 1) : ℕ) : Int) := by
          omega
        rw [List.take_append_drop, List.length_drop, hexponent, zpow_neg, zpow_natCast,
          div_eq_mul_inv]

/-- A number without an exponent is written with digits on both sides of a point. -/
theorem isPointed_toText {layout : Layout} {d : Decimal} (h : d.IsPlain layout) :
    IsPointed (d.toText layout) d.negative d.absolute := by
  rw [toText]
  by_cases hz : d.coefficient = 0
  · have hzero : natOfDigits (['0'] ++ ['0']) = 0 := rfl
    refine ⟨['0'], ['0'], by simp, by simp, List.forall_mem_singleton.2 rfl,
      List.forall_mem_singleton.2 rfl, ?_, ?_⟩
    · rw [if_pos hz]
      rfl
    · rw [absolute, hz, hzero]
      simp
  · rw [if_neg hz, if_pos (h.resolve_left hz), absolute_eq_significant]
    exact isPointed_plain _ (significant_ne_nil hz) d.isDigit_significant d.magnitude

theorem exists_toText_of_exponent {layout : Layout} {d : Decimal} (h : ¬d.IsPlain layout) :
    ∃ x front back, d.toText layout = x :: (front ++ 'e' :: back) ∧ isNumberStart x = true ∧
      ∀ c ∈ front, isNumberChar c = true := by
  obtain ⟨hz, hm⟩ := not_or.1 h
  obtain ⟨x, ds, hx⟩ := List.exists_cons_of_ne_nil (significant_ne_nil hz)
  have hd : ∀ c ∈ x :: ds, isNumberChar c = true := fun c hc =>
    isNumberChar_of_isDigit (d.isDigit_significant c (hx ▸ hc))
  obtain ⟨middle, back, hscientific, hmiddle⟩ : ∃ middle back,
      scientific layout.plusSign (x :: ds) d.magnitude = x :: (middle ++ 'e' :: back) ∧
        ∀ c ∈ middle, isNumberChar c = true := by
    refine ⟨_, _, rfl, ?_⟩
    cases ds with
    | nil => simp
    | cons y ds =>
      rw [if_neg nofun]
      exact List.forall_mem_cons.2 ⟨by decide, (List.forall_mem_cons.1 hd).2⟩
  rw [toText, if_neg hz, if_neg hm, hx, hscientific]
  cases d.negative with
  | true =>
    exact ⟨'-', x :: middle, back, rfl, rfl, List.forall_mem_cons.2
      ⟨hd x List.mem_cons_self, hmiddle⟩⟩
  | false =>
    have hstart := isNumberStart_of_isDigit (d.isDigit_significant x (hx ▸ List.mem_cons_self))
    exact ⟨x, middle, back, rfl, hstart, hmiddle⟩

end Decimal

/-- In a number stand digits, a minus sign and a point. -/
theorem IsNumber.chars {word : List Char} {v : Literal} (h : IsNumber word v) :
    ∀ c ∈ word, c.isDigit = true ∨ c = '-' ∨ c = '.' := by
  have hsign : ∀ negative, ∀ c ∈ signChars negative, c = '-' := fun negative c hc => by
    cases negative with
    | true => exact List.mem_singleton.1 hc
    | false => cases hc
  cases h with
  | whole negative _ hd =>
    intro c hc
    rcases List.mem_append.1 hc with hc | hc
    · exact .inr (.inl (hsign negative c hc))
    · exact .inl (hd c hc)
  | point h =>
    obtain ⟨negative, whole, fraction, -, -, hw, hf, rfl, -⟩ := h
    intro c hc
    simp only [List.mem_append, List.mem_cons] at hc
    rcases hc with hc | hc | rfl | hc
    · exact .inr (.inl (hsign negative c hc))
    · exact .inl (hw c hc)
    · exact .inr (.inr rfl)
    · exact .inl (hf c hc)

theorem not_isBlank_of_isNumberStart {c : Char} (h : isNumberStart c = true) :
    isBlank c = false := by
  rw [← Bool.not_eq_true]
  intro hb
  have hnum := not_isNumberChar_of_isBlank hb
  simp only [isNumberStart, Bool.or_eq_true, decide_eq_true_eq] at h
  rcases h with (h | rfl) | rfl
  · rw [isNumberChar_of_isDigit h] at hnum
    cases hnum
  · exact absurd hb (by decide)
  · exact absurd hb (by decide)

/-- A number word with an exponent is a fault. -/
theorem exists_tokenize_of_exponent {x : Char} {front : List Char} (hx : isNumberStart x = true)
    (hfront : ∀ c ∈ front, isNumberChar c = true) (back : List Char) : ∃ word,
      tokenize (String.ofList (x :: (front ++ 'e' :: back))) =
        .error ⟨.start, .malformedNumber word⟩ := by
  obtain ⟨text, htext⟩ : ∃ text, text = String.ofList (x :: (front ++ 'e' :: back)) := ⟨_, rfl⟩
  have hblank := not_isBlank_of_isNumberStart hx
  have hskip : (Cursor.ofText text).skip = ⟨x :: (front ++ 'e' :: back), .start⟩ := by
    simp [Cursor.ofText, Cursor.skip, skipBlanks, htext, hblank]
  have hmem : 'e' ∈ (splitNumber (x :: (front ++ 'e' :: back))).1 := by
    rw [splitNumber_cons hx, List.takeWhile_append_of_pos hfront,
      List.takeWhile_cons_of_pos (by decide)]
    simp
  have hnone : Literal.ofNumber? (splitNumber (x :: (front ++ 'e' :: back))).1 = none := by
    rw [Option.eq_none_iff_forall_ne_some]
    intro v hv
    have := (isNumber_of_ofNumber? hv).chars 'e' hmem
    revert this
    decide
  have hnext := Cursor.next_of_isNumberStart (congrArg Cursor.rest hskip) hx
  rw [hnone, hskip] at hnext
  refine ⟨String.ofList (splitNumber (x :: (front ++ 'e' :: back))).1, ?_⟩
  rw [← htext, tokenize, Cursor.deliver_of_error hnext]
  rfl

namespace Finite64

theorem absolute_eq_zero_iff (tie : Tie) (x : Finite64) :
    x.absolute = 0 ↔ (x.shortest tie).coefficient = 0 := by
  constructor
  · intro h
    have hpos : (2 : ℚ) ^ x.exponent ≠ 0 := zpow_ne_zero _ two_ne_zero
    have hm : x.mantissa = 0 := by
      rw [absolute, mul_eq_zero, or_iff_left hpos] at h
      exact_mod_cast h
    have hdecimal : x.toDecimal.coefficient = 0 := by
      rw [toDecimal, hm]
      split <;> simp
    have hwidth : x.toDecimal.width = 1 := by
      rw [Decimal.width, hdecimal]
      rfl
    rw [shortest, hwidth]
    exact hdecimal
  · intro h
    have hnearest := x.isNearest_shortest tie
    have hzero := (zero x.negative).isNearest_absolute
    have habsolute : (zero x.negative).absolute = 0 := by simp [absolute, zero]
    rw [Decimal.absolute, h, Nat.cast_zero, zero_mul] at hnearest
    rw [habsolute] at hzero
    rw [hnearest.eq hzero rfl, habsolute]

/-- Whether a number has an exponent in messages is told by its size. -/
theorem isPlain_iff (x : Finite64) :
    (x.shortest .up).IsPlain .message ↔ (Literal.float (.finite x)).IsInPlace := by
  rw [Decimal.IsPlain, ← absolute_eq_zero_iff, Literal.IsInPlace]
  refine or_congr_right' fun h => ?_
  have hz : (x.shortest .up).coefficient ≠ 0 := fun hz => h ((absolute_eq_zero_iff .up x).2 hz)
  have hlow := not_congr x.shortest_lt_iff_of_four
  have hup := x.shortest_lt_iff_of_sixteen
  rw [not_lt, not_lt, Decimal.zpow_le_absolute_iff hz] at hlow
  rw [← not_le, Decimal.zpow_le_absolute_iff hz, not_le] at hup
  exact and_congr hlow (Int.lt_add_one_iff.symm.trans hup)

end Finite64

/-- What stands in a text can be written. -/
theorem isWritable_of_tokenize {text : String} {lexemes : List Lexeme} {t : Token}
    (h : tokenize text = .ok lexemes) (ht : t ∈ lexemes.map Lexeme.token)
    (hne : t ≠ .endOfInput) : t.IsWritable := by
  obtain ⟨last, hlast, rfl⟩ := tokenize_eq_ok.1 h
  obtain ⟨l, hl, rfl⟩ := List.mem_map.1 ht
  rcases List.mem_append.1 hl with hl | hl
  · exact Cursor.isWritable_deliver _ l hl
  · rw [List.mem_singleton.1 hl] at hne
    exact absurd (Cursor.token_ending_deliver _ hlast) hne

theorem Finite64.hasTokens_toText {x : Finite64} (h : (Literal.float (.finite x)).IsInPlace) :
    HasTokens (Literal.float (.finite x)).toText [.literal (.float (.finite x))] := by
  have hpointed := Decimal.isPointed_toText (x.isPlain_iff.2 h)
  rw [x.negative_shortest] at hpointed
  have hnumeral := isNumeral_iff.2 ⟨_, hpointed, x.isNearest_shortest .up⟩
  have hlist : (Literal.float (.finite x)).toText.toList = (x.shortest .up).toText .message :=
    String.toList_ofList
  refine hasTokens_of_scan ?_ nofun
  rw [hlist]
  exact scan_numeral hnumeral

theorem Finite64.exists_tokenize_toText {x : Finite64}
    (h : ¬(Literal.float (.finite x)).IsInPlace) : ∃ word,
      tokenize (Literal.float (.finite x)).toText = .error ⟨.start, .malformedNumber word⟩ := by
  obtain ⟨c, front, back, htext, hc, hfront⟩ :=
    Decimal.exists_toText_of_exponent (mt x.isPlain_iff.1 h)
  have hshown : (Literal.float (.finite x)).toText =
      String.ofList ((x.shortest .up).toText .message) := rfl
  rw [hshown, htext]
  exact exists_tokenize_of_exponent hc hfront back

/-- What is read as a number is, when it is shown, read as the same number again exactly if it has
no exponent, and as a fault if it has one. -/
theorem reads_back_iff_in_place {text : String} {lexemes : List Lexeme} {v : Literal}
    (h : tokenize text = .ok lexemes) (hv : .literal v ∈ lexemes.map Lexeme.token)
    (hnumber : (∃ n, v = .int n) ∨ ∃ x, v = .float x) :
    (HasTokens v.toText [.literal v] ↔ v.IsInPlace) ∧
      (¬v.IsInPlace → ∃ word, tokenize v.toText = .error ⟨.start, .malformedNumber word⟩) := by
  have hwritable := isWritable_of_tokenize h hv nofun
  rcases hnumber with ⟨n, rfl⟩ | ⟨x, rfl⟩
  · have hint := hasTokens_of_scan (scan_int hwritable) nofun
    exact ⟨⟨fun _ => trivial, fun _ => hint⟩, fun hn => absurd trivial hn⟩
  · obtain ⟨y, rfl⟩ := hwritable
    refine ⟨⟨fun htokens => ?_, y.hasTokens_toText⟩, y.exists_tokenize_toText⟩
    by_contra hn
    obtain ⟨word, hfault⟩ := y.exists_tokenize_toText hn
    obtain ⟨shown, hshown, -⟩ := htokens
    rw [hfault] at hshown
    cases hshown

theorem reads_back_iff_in_place_of_two : ∃ lexemes,
    tokenize "-0.0 10000000000000000.0" = .ok lexemes ∧
      .literal (.float (.finite (.zero true))) ∈ lexemes.map Lexeme.token ∧
      .literal (.float (.finite (.tenToSixteen false))) ∈ lexemes.map Lexeme.token ∧
      HasTokens (Literal.float (.finite (.zero true))).toText
        [.literal (.float (.finite (.zero true)))] ∧
      ¬HasTokens (Literal.float (.finite (.tenToSixteen false))).toText
        [.literal (.float (.finite (.tenToSixteen false)))] := by
  have hpasses : (Cursor.ofText "-0.0 10000000000000000.0").Passes
      [⟨.literal (.float (Binary64.ofDecimal (.ofDigits true ['0'] ['0'] 0))), "-0.0", .start⟩,
        ⟨.literal (.float (Binary64.ofDecimal
          (.ofDigits false "10000000000000000".toList ['0'] 0))), "10000000000000000.0", ⟨5, 1, 6⟩⟩]
      ⟨[], ⟨24, 1, 25⟩⟩ := .cons rfl nofun (.cons rfl nofun (.nil _))
  have h := tokenize_of_passes hpasses nofun
  rw [Finite64.ofDecimal_tenToSixteen] at h
  refine ⟨_, h, .head _, .tail _ (.head _), ?_, ?_⟩
  · refine (reads_back_iff_in_place h (.head _) (.inr ⟨_, rfl⟩)).1.2 (.inl ?_)
    simp [Finite64.absolute, Finite64.zero]
  · refine mt (reads_back_iff_in_place h (.tail _ (.head _)) (.inr ⟨_, rfl⟩)).1.1 ?_
    norm_num [Literal.IsInPlace, Finite64.absolute, Finite64.tenToSixteen]

/-- A number that is read but whose text is a fault. -/
theorem shown_with_exponent_is_fault :
    HasTokens "10000000000000000.0" [.literal (.float (.finite (.tenToSixteen false)))] ∧
      (Literal.float (.finite (.tenToSixteen false))).toText = "1e16" ∧
      tokenize "1e16" = .error ⟨.start, .malformedNumber "1e16"⟩ := by
  refine ⟨?_, ?_, ?_⟩
  · refine hasTokens_of_scan (scan_numeral
      ⟨false, _, _, ?_, ?_, List.all_eq_true.1 ?_, List.all_eq_true.1 ?_, rfl,
        Finite64.ofDecimal_tenToSixteen⟩) nofun <;> decide
  · have hshown : (Literal.float (.finite (.tenToSixteen false))).toText =
        String.ofList (((Finite64.tenToSixteen false).shortest .up).toText .message) := rfl
    rw [hshown, Finite64.shortest_tenToSixteen]
    decide
  · rw [tokenize, Cursor.deliver_of_error rfl]
    rfl

end FilterQuery
