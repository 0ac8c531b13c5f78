import FilterQuery.Proofs.Rounding
import Mathlib.Tactic.Linarith

/-!
# The nearest number of the format

What rounding comes to, told without computing it: among the numbers with a mantissa of 53 binary
digits and no digit behind the place of `2 ^ -1074`, however great they are, none is nearer, and if
another one is as near, the mantissa is even (`IsNearest`). There is one such number
(`IsNearest.eq`), and a quotient rounds to it exactly if the format has room for it
(`ofQuotient_eq_finite_iff`). So of a decimal number only the value counts, and not how it is
written (`ofDecimal_eq_finite_iff`).
-/

namespace FilterQuery

/-- The number without its sign. -/
def Finite64.absolute (x : Finite64) : ℚ :=
  x.mantissa * 2 ^ x.exponent

/-- The number without its sign. -/
def Decimal.absolute (d : Decimal) : ℚ :=
  d.coefficient * 10 ^ d.exponent

/-- Of the numbers with a mantissa of 53 binary digits, none is nearer to `q` than `m · 2 ^ e`, and
if another one is as near, then `m` is even. -/
structure IsNearest (q : ℚ) (m : Nat) (e : Int) : Prop where
  le : ∀ (n : Nat) (f : Int), n < 2 ^ 53 → -1074 ≤ f → |q - m * 2 ^ e| ≤ |q - n * 2 ^ f|
  even : ∀ (n : Nat) (f : Int), n < 2 ^ 53 → -1074 ≤ f → (n * 2 ^ f : ℚ) ≠ m * 2 ^ e →
    |q - n * 2 ^ f| = |q - m * 2 ^ e| → m % 2 = 0

/-- The number of the format that a number of this size rounds to. -/
def Finite64.IsNearest (x : Finite64) (q : ℚ) : Prop :=
  FilterQuery.IsNearest q x.mantissa x.exponent

namespace Binary64

theorem quotient_eq_add {n d : Nat} (hd : 0 < d) :
    (n : ℚ) / d = (n / d : ℕ) + (n % d : ℕ) / (d : ℚ) := by
  have hd' : (d : ℚ) ≠ 0 := by exact_mod_cast hd.ne'
  have hsum : (d : ℚ) * (n / d : ℕ) + (n % d : ℕ) = n := by exact_mod_cast Nat.div_add_mod n d
  rw [eq_comm, ← hsum]
  field_simp

/-- A quotient is rounded by at most one half, and by one half only to an even number. -/
theorem abs_sub_roundQuotient_le (n : Nat) {d : Nat} (hd : 0 < d) :
    |(n : ℚ) / d - roundQuotient n d| ≤ 1 / 2 ∧
      (|(n : ℚ) / d - roundQuotient n d| = 1 / 2 → roundQuotient n d % 2 = 0) := by
  have hd' : (0 : ℚ) < d := by exact_mod_cast hd
  have hlt : ((n % d : ℕ) : ℚ) / d < 1 := by
    rw [div_lt_one hd']
    exact_mod_cast Nat.mod_lt n hd
  have hnonneg : (0 : ℚ) ≤ ((n % d : ℕ) : ℚ) / d := by positivity
  have hcast : ∀ {a b : Nat}, a < b → (a : ℚ) < b := fun h => by exact_mod_cast h
  rw [quotient_eq_add hd]
  unfold roundQuotient
  dsimp only
  split
  · rename_i h
    have hsmall : ((n % d : ℕ) : ℚ) / d < 1 / 2 := by
      rw [div_lt_div_iff₀ hd' two_pos]
      have := hcast h
      push_cast at this
      linarith
    rw [add_sub_cancel_left, abs_of_nonneg hnonneg]
    exact ⟨hsmall.le, fun heq => absurd heq hsmall.ne⟩
  split
  · rename_i h
    have hlarge : 1 / 2 < ((n % d : ℕ) : ℚ) / d := by
      rw [div_lt_div_iff₀ two_pos hd']
      have := hcast h
      push_cast at this
      linarith
    push_cast
    rw [add_sub_add_left_eq_sub, abs_of_neg (by linarith)]
    exact ⟨by linarith, fun heq => by linarith⟩
  · have htie : 2 * (n % d) = d := by omega
    have hmid : ((n % d : ℕ) : ℚ) / d = 1 / 2 := by
      rw [div_eq_div_iff hd'.ne' two_ne_zero]
      have : ((2 * (n % d) : ℕ) : ℚ) = d := by exact_mod_cast htie
      push_cast at this
      linarith
    rw [hmid]
    rcases Nat.mod_two_eq_zero_or_one (n / d) with h | h <;> rw [h] <;> push_cast
    · norm_num
      omega
    · norm_num
      omega

/-- What is rounded by at most one half is not nearer to another whole number. -/
theorem half_le_abs_sub {s : ℚ} {r : Nat} (hr : |s - r| ≤ 1 / 2) {k : Int} (hk : k ≠ r) :
    1 / 2 ≤ |s - k| := by
  have hone : (1 : ℚ) ≤ |(r : ℚ) - k| := by
    have : 1 ≤ |(r : Int) - k| := Int.one_le_abs (by omega)
    exact_mod_cast this
  have htriangle := abs_sub_abs_le_abs_sub ((r : ℚ) - k) (r - s)
  have hdiff : (r : ℚ) - k - (r - s) = s - k := by ring
  rw [hdiff, abs_sub_comm (r : ℚ) s] at htriangle
  linarith

section Nearest

variable {e f : Int} {r num den : Nat}

/-- Distances in units of `2 ^ e`. -/
theorem abs_sub_eq_mul (s t : ℚ) (e : Int) :
    |s * 2 ^ e - t * 2 ^ e| = |s - t| * 2 ^ e := by
  rw [← sub_mul, abs_mul, abs_of_pos (a := (2 : ℚ) ^ e) (zpow_pos two_pos e)]

theorem mul_zpow_eq (n : Nat) (e f : Int) : (n * 2 ^ f : ℚ) = n * 2 ^ (f - e) * 2 ^ e := by
  rw [mul_assoc, ← zpow_add₀ two_ne_zero, sub_add_cancel]

theorem mul_zpow_eq_natCast (h : e ≤ f) (n : Nat) :
    (n * 2 ^ (f - e) : ℚ) = ((n * 2 ^ (f - e).toNat : Nat) : ℚ) := by
  obtain ⟨k, hk⟩ := Int.eq_ofNat_of_zero_le (sub_nonneg.2 h)
  rw [hk]
  push_cast
  rw [zpow_natCast, Int.toNat_natCast]

/-- In units of `2 ^ e`, the rounded quotient `r` of `s` is nearest: what is no whole number of
units is below the numbers that need all digits, and `s` is one of them. -/
theorem abs_sub_le_of_rounded {s : ℚ} (hr : |s - r| ≤ 1 / 2) (htie : |s - r| = 1 / 2 → r % 2 = 0)
    (hs : e = -1074 ∨ 2 ^ 52 ≤ s) {n : Nat} (hn : n < 2 ^ 53) (hf : -1074 ≤ f) :
    |s - r| ≤ |s - n * 2 ^ (f - e)| ∧
      ((n * 2 ^ (f - e) : ℚ) ≠ r → |s - n * 2 ^ (f - e)| = |s - r| → r % 2 = 0) := by
  rcases le_or_gt e f with h | h
  · rw [mul_zpow_eq_natCast h]
    generalize n * 2 ^ (f - e).toNat = k
    by_cases hk : (k : Int) = r
    · obtain rfl : k = r := by exact_mod_cast hk
      exact ⟨le_rfl, fun hne => absurd rfl hne⟩
    · have hhalf : 1 / 2 ≤ |s - k| := by exact_mod_cast half_le_abs_sub hr hk
      exact ⟨hr.trans hhalf, fun _ heq => htie (le_antisymm hr (heq ▸ hhalf))⟩
  · have hlow : 2 ^ 52 ≤ s := hs.resolve_left (by omega)
    have hpow : (2 : ℚ) ^ (f - e) ≤ 1 / 2 := by
      have hle : (2 : ℚ) ^ (f - e) ≤ 2 ^ (-1 : Int) :=
        zpow_le_zpow_right₀ one_le_two (by omega)
      norm_num at hle ⊢
      exact hle
    have ht : (n * 2 ^ (f - e) : ℚ) < 2 ^ 52 := by
      have hn' : (n : ℚ) < 2 ^ 53 := by exact_mod_cast hn
      have hpos : (0 : ℚ) < 2 ^ (f - e) := zpow_pos two_pos _
      calc (n * 2 ^ (f - e) : ℚ) < 2 ^ 53 * 2 ^ (f - e) := by gcongr
        _ ≤ 2 ^ 53 * (1 / 2) := by gcongr
        _ = 2 ^ 52 := by norm_num
    -- the least number with all digits lies between
    have hmid : |s - r| ≤ s - 2 ^ 52 := by
      by_cases hk : (2 ^ 52 : Int) = r
      · have hk' : (r : ℚ) = 2 ^ 52 := by exact_mod_cast hk.symm
        rw [hk', abs_of_nonneg (by linarith)]
      · have hhalf : 1 / 2 ≤ |s - 2 ^ 52| := by exact_mod_cast half_le_abs_sub hr hk
        rw [abs_of_nonneg (by linarith : 0 ≤ s - 2 ^ 52)] at hhalf
        exact hr.trans hhalf
    have hlt : |s - r| < |s - n * 2 ^ (f - e)| := by
      rw [abs_of_pos (by linarith : 0 < s - n * 2 ^ (f - e))]
      linarith
    exact ⟨hlt.le, fun _ heq => absurd heq.symm hlt.ne⟩

/-- A rounded quotient is nearest, whichever way it is written. -/
theorem isNearest_of_rounded {q : ℚ} (hr : |q / 2 ^ e - r| ≤ 1 / 2)
    (htie : |q / 2 ^ e - r| = 1 / 2 → r % 2 = 0) (hs : e = -1074 ∨ 2 ^ 52 ≤ q / 2 ^ e) {m : Nat}
    {i : Int} (hmi : (m * 2 ^ i : ℚ) = r * 2 ^ e) (heven : r % 2 = 0 → m % 2 = 0) :
    IsNearest q m i := by
  have hpos : (0 : ℚ) < 2 ^ e := zpow_pos two_pos e
  have hq : q = q / 2 ^ e * 2 ^ e := (div_mul_cancel₀ _ hpos.ne').symm
  constructor
  · intro n f hn hf
    obtain ⟨hle, -⟩ := abs_sub_le_of_rounded hr htie hs hn hf
    rw [hmi, hq, mul_zpow_eq n e f, abs_sub_eq_mul, abs_sub_eq_mul]
    gcongr
  · intro n f hn hf hne heq
    obtain ⟨-, hall⟩ := abs_sub_le_of_rounded hr htie hs hn hf
    rw [hmi, hq, mul_zpow_eq n e f, abs_sub_eq_mul, abs_sub_eq_mul] at heq
    refine heven (hall (fun h => hne ?_) (mul_right_cancel₀ hpos.ne' heq))
    rw [hmi, mul_zpow_eq n e f, h]

/-- In units of the last place a quotient has 53 binary digits in front of the point, or fewer if
the place is the last of all. -/
theorem quotient_bounds (hn : num ≠ 0) (hd : den ≠ 0)
    (he : e = max (log2Quotient num den - 52) (-1074)) :
    (e = -1074 ∨ 2 ^ 52 ≤ (num : ℚ) / den / 2 ^ e) ∧ (num : ℚ) / den / 2 ^ e < 2 ^ 53 := by
  have hq : (0 : ℚ) < num / den := by positivity
  have hpos : (0 : ℚ) < 2 ^ e := zpow_pos two_pos e
  obtain ⟨hl, hu⟩ : (2 : ℚ) ^ log2Quotient num den ≤ num / den ∧
      (num : ℚ) / den < 2 ^ (log2Quotient num den + 1) := by
    rw [log2Quotient_eq_log hn hd]
    exact ⟨Int.zpow_log_le_self one_lt_two hq, Int.lt_zpow_succ_log_self one_lt_two _⟩
  have hpow : ∀ k : Nat, (2 : ℚ) ^ k * 2 ^ e = 2 ^ (k + e) := fun k => by
    rw [← zpow_natCast, ← zpow_add₀ two_ne_zero]
  constructor
  · refine (le_or_gt (log2Quotient num den - 52) (-1074)).imp (fun h => by omega) fun h => ?_
    rw [le_div_iff₀ hpos, hpow]
    exact le_trans (zpow_le_zpow_right₀ one_le_two (by push_cast; omega)) hl
  · rw [div_lt_iff₀ hpos, hpow]
    exact lt_of_lt_of_le hu (zpow_le_zpow_right₀ one_le_two (by push_cast; omega))

/-- A quotient that is not zero is rounded to a nearest number, if there is room for it. -/
theorem exists_isNearest (hn : num ≠ 0) (hd : den ≠ 0) :
    ∃ m e, m < 2 ^ 53 ∧ -1074 ≤ e ∧ (e = -1074 ∨ 2 ^ 52 ≤ m) ∧
      IsNearest ((num : ℚ) / den) m e ∧
      ∀ negative, ofQuotient negative num den = ofParts negative m e := by
  obtain ⟨e, he⟩ : ∃ e, e = max (log2Quotient num den - 52) (-1074) := ⟨_, rfl⟩
  obtain ⟨r, hr⟩ : ∃ r, r = roundQuotient (num * Nat.pow 2 (-e).toNat)
    (den * Nat.pow 2 e.toNat) := ⟨_, rfl⟩
  obtain ⟨hlow, hup⟩ := quotient_bounds hn hd he
  have hscaled : ((num * Nat.pow 2 (-e).toNat : ℕ) : ℚ) / (den * Nat.pow 2 e.toNat : ℕ) =
      num / den / 2 ^ e := by
    rw [zpow_eq_quotient]
    push_cast
    field_simp
  obtain ⟨hhalf, htie⟩ := abs_sub_roundQuotient_le (num * Nat.pow 2 (-e).toNat)
    (show 0 < den * Nat.pow 2 e.toNat from Nat.mul_pos (Nat.pos_of_ne_zero hd) (Nat.two_pow_pos _))
  rw [hscaled, ← hr] at hhalf htie
  obtain ⟨hle, hge⟩ := abs_le.1 hhalf
  have hr53 : r ≤ 2 ^ 53 := by
    have : (r : ℚ) < (2 ^ 53 + 1 : ℕ) := by push_cast; linarith
    exact Nat.lt_succ_iff.1 (by exact_mod_cast this)
  have hr52 : e = -1074 ∨ 2 ^ 52 ≤ r := hlow.imp_right fun h => by
    have : ((2 ^ 52 : ℕ) : ℚ) < (r + 1 : ℕ) := by push_cast; linarith
    exact Nat.lt_succ_iff.1 (by exact_mod_cast this)
  have hround : ∀ negative, ofQuotient negative num den =
      if r = 9007199254740992 then ofParts negative 4503599627370496 (e + 1)
      else ofParts negative r e := fun negative => by
    rw [ofQuotient, if_neg hn, ← he]
    simp only [← hr]
  by_cases hcarry : r = 9007199254740992
  · refine ⟨4503599627370496, e + 1, by norm_num, by omega, .inr (by norm_num),
      isNearest_of_rounded hhalf htie hlow ?_ fun _ => rfl, fun negative => by
        rw [hround, if_pos hcarry]⟩
    rw [hcarry, zpow_add_one₀ two_ne_zero]
    push_cast
    ring
  · exact ⟨r, e, by omega, by omega, hr52, isNearest_of_rounded hhalf htie hlow rfl id,
      fun negative => by rw [hround, if_neg hcarry]⟩

end Nearest

end Binary64

section Unique

variable {x y : Finite64} {q : ℚ} {m n : Nat} {e f : Int}

/-- Of two numbers that are nearest, one is the other: between two that are as near and have even
mantissas there would be a nearer one. -/
theorem IsNearest.eq (hm : IsNearest q m e) (hn : IsNearest q n f) (hm53 : m < 2 ^ 53)
    (hn53 : n < 2 ^ 53) (he : -1074 ≤ e) (hf : -1074 ≤ f) : (m * 2 ^ e : ℚ) = n * 2 ^ f := by
  wlog h : e ≤ f generalizing m n e f
  · exact (this hn hm hn53 hm53 hf he (by omega)).symm
  by_contra hne
  have heq : |q - n * 2 ^ f| = |q - m * 2 ^ e| :=
    le_antisymm (hn.le m e hm53 he) (hm.le n f hn53 hf)
  have hmeven := hm.even n f hn53 hf (Ne.symm hne) heq
  have hneven := hn.even m e hm53 he hne heq.symm
  -- both in units of the smaller place
  obtain ⟨k, hk, hkeven⟩ : ∃ k : Nat, (n * 2 ^ f : ℚ) = k * 2 ^ e ∧ k % 2 = 0 := by
    refine ⟨n * 2 ^ (f - e).toNat, ?_, ?_⟩
    · rw [Binary64.mul_zpow_eq n e f, Binary64.mul_zpow_eq_natCast h]
    · rw [Nat.mul_mod, hneven, Nat.zero_mul, Nat.zero_mod]
  have hpos : (0 : ℚ) < 2 ^ e := zpow_pos two_pos e
  obtain ⟨s, rfl⟩ : ∃ s, q = s * 2 ^ e := ⟨q / 2 ^ e, (div_mul_cancel₀ _ hpos.ne').symm⟩
  have hmk : m ≠ k := by
    rintro rfl
    exact hne hk.symm
  rw [hk, Binary64.abs_sub_eq_mul, Binary64.abs_sub_eq_mul] at heq
  have heq := mul_right_cancel₀ hpos.ne' heq
  obtain ⟨j, hj53, hj⟩ : ∃ j : Nat, j < 2 ^ 53 ∧ (m < j ∧ j < k ∨ k < j ∧ j < m) := by
    rcases Nat.lt_or_gt_of_ne hmk with hlt | hgt
    · exact ⟨m + 1, by omega, .inl (by omega)⟩
    · exact ⟨m - 1, by omega, .inr (by omega)⟩
  have hle := hm.le j e hj53 he
  rw [Binary64.abs_sub_eq_mul, Binary64.abs_sub_eq_mul] at hle
  have hle := le_of_mul_le_mul_right hle hpos
  have hcast : ∀ {a b : Nat}, a < b → (a : ℚ) < b := fun h => by exact_mod_cast h
  have hmid : s - k = -(s - m) := (abs_eq_abs.1 heq).resolve_left fun h => hmk (by
    have : (k : ℚ) = m := by linarith
    exact_mod_cast this.symm)
  rcases hj with ⟨hmj, hjk⟩ | ⟨hkj, hjm⟩
  · have h1 := hcast hmj
    have h2 := hcast hjk
    rw [abs_of_pos (by linarith : 0 < s - m)] at hle
    have := abs_lt.2 (show -(s - m) < s - j ∧ s - j < s - m by constructor <;> linarith)
    linarith
  · have h1 := hcast hkj
    have h2 := hcast hjm
    rw [abs_of_neg (by linarith : s - m < 0)] at hle
    have := abs_lt.2 (show -(-(s - m)) < s - j ∧ s - j < -(s - m) by constructor <;> linarith)
    linarith

/-- Numbers with their least exponents are told by their values. -/
theorem eq_of_mul_zpow_eq (h : (m * 2 ^ e : ℚ) = n * 2 ^ f) (hm53 : m < 2 ^ 53) (hn53 : n < 2 ^ 53)
    (he : -1074 ≤ e) (hf : -1074 ≤ f) (hm : e = -1074 ∨ 2 ^ 52 ≤ m) (hn : f = -1074 ∨ 2 ^ 52 ≤ n) :
    m = n ∧ e = f := by
  wlog hle : e ≤ f generalizing m n e f
  · obtain ⟨h₁, h₂⟩ := this h.symm hn53 hm53 hf he hn hm (by omega)
    exact ⟨h₁.symm, h₂.symm⟩
  have hpos : (0 : ℚ) < 2 ^ e := zpow_pos two_pos e
  rw [Binary64.mul_zpow_eq n e f, Binary64.mul_zpow_eq_natCast hle] at h
  have hmn : m = n * 2 ^ (f - e).toNat := by
    have := mul_right_cancel₀ hpos.ne' h
    exact_mod_cast this
  rcases eq_or_lt_of_le hle with rfl | hlt
  · simpa using hmn
  · obtain ⟨k, hk⟩ : ∃ k, (f - e).toNat = k + 1 := ⟨(f - e).toNat - 1, by omega⟩
    have hn52 : 2 ^ 52 ≤ n := hn.resolve_left (by omega)
    have hpow : 1 ≤ 2 ^ k := Nat.one_le_two_pow
    rw [hk, Nat.pow_succ] at hmn
    have : 2 ^ 52 * (1 * 2) ≤ n * (2 ^ k * 2) := Nat.mul_le_mul hn52 (Nat.mul_le_mul hpow le_rfl)
    omega

namespace Finite64

theorem eq_of_absolute_eq (hs : x.negative = y.negative) (h : x.absolute = y.absolute) : x = y := by
  obtain ⟨_, m, e, hm, hle, hge, hnormal⟩ := x
  obtain ⟨_, n, f, hn, hlf, hgf, hnormal'⟩ := y
  obtain ⟨rfl, rfl⟩ := eq_of_mul_zpow_eq h hm hn hle hlf hnormal hnormal'
  cases hs
  rfl

theorem IsNearest.eq (hx : x.IsNearest q) (hy : y.IsNearest q) (hs : x.negative = y.negative) :
    x = y :=
  eq_of_absolute_eq hs
    (FilterQuery.IsNearest.eq hx hy x.mantissa_lt y.mantissa_lt x.le_exponent y.le_exponent)

theorem isNearest_absolute (x : Finite64) : x.IsNearest x.absolute := by
  constructor
  · intro n f _ _
    rw [absolute, sub_self, abs_zero]
    exact abs_nonneg _
  · intro n f _ _ hne heq
    rw [absolute, sub_self, abs_zero, abs_eq_zero, sub_eq_zero] at heq
    exact absurd heq.symm hne

end Finite64

namespace Binary64

/-- A quotient rounds to the nearest number of its sign, if that is a number of the format, and to
no number otherwise. -/
theorem ofQuotient_eq_finite_iff {negative : Bool} {num den : Nat} (hd : den ≠ 0) :
    ofQuotient negative num den = .finite x ↔
      x.negative = negative ∧ x.IsNearest ((num : ℚ) / den) := by
  by_cases hn : num = 0
  · have hzero : (Finite64.zero negative).IsNearest 0 := by
      have h := (Finite64.zero negative).isNearest_absolute
      rwa [Finite64.absolute, Finite64.zero, Nat.cast_zero, zero_mul] at h
    rw [hn, ofQuotient, if_pos rfl, Nat.cast_zero, zero_div, finite.injEq]
    constructor
    · rintro rfl
      exact ⟨rfl, hzero⟩
    · rintro ⟨hs, hx⟩
      exact hzero.eq hx hs.symm
  obtain ⟨m, e, hm, he, hnormal, hnearest, hround⟩ := exists_isNearest hn hd
  rw [hround, ofParts]
  constructor
  · intro h
    split at h
    · cases h
      exact ⟨rfl, hnearest⟩
    · cases h
  · rintro ⟨hs, hx⟩
    obtain ⟨rfl, rfl⟩ := eq_of_mul_zpow_eq
      (FilterQuery.IsNearest.eq hnearest hx hm x.mantissa_lt he x.le_exponent)
      hm x.mantissa_lt he x.le_exponent hnormal x.normal
    rw [dif_pos ⟨hm, he, x.exponent_le, hnormal⟩, ← hs]

theorem ofDecimal_eq_finite_iff {d : Decimal} :
    ofDecimal d = .finite x ↔ x.negative = d.negative ∧ x.IsNearest d.absolute := by
  have habsolute : ((d.coefficient * Nat.pow 10 d.exponent.toNat : ℕ) : ℚ) /
      (Nat.pow 10 (-d.exponent).toNat : ℕ) = d.absolute := by
    rw [Decimal.absolute]
    obtain ⟨n, hn | hn⟩ := d.exponent.eq_nat_or_neg <;> rw [hn]
    · simp
    · simp [zpow_neg, div_eq_mul_inv]
  have hden : Nat.pow 10 (-d.exponent).toNat ≠ 0 := (Nat.pow_pos (by decide)).ne'
  rw [ofDecimal, ofQuotient_eq_finite_iff hden, habsolute]

end Binary64

end Unique

end FilterQuery
