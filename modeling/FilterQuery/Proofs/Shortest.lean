import FilterQuery.Number.Shortest
import FilterQuery.Proofs.Nearest

/-!
# Shortest digits

The digits that show a number read back as it (`Finite64.ofDecimal_shortest`). Rounding never turns
a greater number into a smaller one (`Finite64.IsNearest.mono`), so of two numbers the greater one
is shown with the greater digits (`Finite64.shortest_lt_shortest_iff`), and a number lies below a
power of ten that is shown with one digit exactly if its digits do.
-/

namespace FilterQuery

namespace Finite64

theorem absolute_toDecimal (x : Finite64) : x.toDecimal.absolute = x.absolute := by
  rw [toDecimal, absolute]
  split
  · rename_i he
    obtain ⟨n, hn⟩ := Int.eq_ofNat_of_zero_le he
    simp [Decimal.absolute, hn]
  · rename_i he
    obtain ⟨n, hn⟩ := Int.eq_ofNat_of_zero_le (show 0 ≤ -x.exponent by omega)
    have hx : x.exponent = -(n : Int) := by omega
    have hten : (10 : ℚ) ^ n = 5 ^ n * 2 ^ n := by rw [← mul_pow]; norm_num
    simp only [Decimal.absolute, hx, neg_neg, Int.toNat_natCast, zpow_neg, zpow_natCast, hten,
      Nat.pow_eq]
    push_cast
    field_simp

theorem ofDecimal_toDecimal (x : Finite64) : Binary64.ofDecimal x.toDecimal = .finite x := by
  refine Binary64.ofDecimal_eq_finite_iff.2 ⟨?_, ?_⟩
  · rw [toDecimal]
    split <;> rfl
  · rw [absolute_toDecimal]
    exact x.isNearest_absolute

theorem ofDecimal_shortestFrom (tie : Tie) (x : Finite64) : ∀ places : Nat,
    Binary64.ofDecimal (x.shortestFrom tie places) = .finite x
  | 0 => x.ofDecimal_toDecimal
  | places + 1 => by
    rw [shortestFrom]
    split
    · rename_i d hd
      have hback : x.readsBack d = true := List.find?_some hd
      exact of_decide_eq_true hback
    · exact ofDecimal_shortestFrom tie x places

/-- The digits that show a number read back as it. -/
theorem ofDecimal_shortest (tie : Tie) (x : Finite64) :
    Binary64.ofDecimal (x.shortest tie) = .finite x :=
  ofDecimal_shortestFrom tie x _

theorem negative_shortest (tie : Tie) (x : Finite64) : (x.shortest tie).negative = x.negative :=
  (Binary64.ofDecimal_eq_finite_iff.1 (x.ofDecimal_shortest tie)).1.symm

theorem isNearest_shortest (tie : Tie) (x : Finite64) : x.IsNearest (x.shortest tie).absolute :=
  (Binary64.ofDecimal_eq_finite_iff.1 (x.ofDecimal_shortest tie)).2

/-- Rounding keeps the order. -/
theorem IsNearest.mono {x y : Finite64} {q r : ℚ} (hx : x.IsNearest q) (hy : y.IsNearest r)
    (h : q ≤ r) : x.absolute ≤ y.absolute := by
  by_contra hlt
  rw [not_le] at hlt
  have hxle : |q - x.absolute| ≤ |q - y.absolute| := hx.le _ _ y.mantissa_lt y.le_exponent
  have hyle : |r - y.absolute| ≤ |r - x.absolute| := hy.le _ _ x.mantissa_lt x.le_exponent
  -- both lie in the middle, where two numbers are as near
  have hq : x.absolute + y.absolute ≤ 2 * q := by
    have := sq_le_sq.2 hxle
    nlinarith
  have hr : 2 * r ≤ x.absolute + y.absolute := by
    have := sq_le_sq.2 hyle
    nlinarith
  obtain rfl : q = r := by linarith
  have heq : x.absolute = y.absolute :=
    FilterQuery.IsNearest.eq hx hy x.mantissa_lt y.mantissa_lt x.le_exponent y.le_exponent
  exact hlt.ne heq.symm

theorem shortest_lt_shortest_iff (tie : Tie) {x y : Finite64} (hs : x.negative = y.negative) :
    (x.shortest tie).absolute < (y.shortest tie).absolute ↔ x.absolute < y.absolute := by
  constructor
  · intro h
    refine lt_of_le_of_ne ((x.isNearest_shortest tie).mono (y.isNearest_shortest tie) h.le) ?_
    intro heq
    rw [eq_of_absolute_eq hs heq] at h
    exact lt_irrefl _ h
  · intro h
    by_contra hle
    rw [not_lt] at hle
    exact absurd ((y.isNearest_shortest tie).mono (x.isNearest_shortest tie) hle) (not_le.2 h)

/-- No number with 53 binary digits or fewer lies between two that follow each other. -/
theorem absolute_le_or_le (x : Finite64) {n : Nat} (hn : 2 ^ 52 ≤ n) (e : Int) :
    x.absolute ≤ n * 2 ^ e ∨ ((n + 1 : ℕ) : ℚ) * 2 ^ e ≤ x.absolute := by
  have hpos : (0 : ℚ) < 2 ^ e := zpow_pos two_pos e
  rw [absolute]
  rcases le_or_gt e x.exponent with h | h
  · rw [Binary64.mul_zpow_eq x.mantissa e x.exponent, Binary64.mul_zpow_eq_natCast h]
    refine (Nat.lt_or_ge n (x.mantissa * 2 ^ (x.exponent - e).toNat)).symm.imp
      (fun hle => ?_) fun hlt => ?_
    · gcongr
    · gcongr
      exact hlt
  · refine .inl ?_
    have hm : (x.mantissa : ℚ) ≤ 2 ^ 53 := by exact_mod_cast x.mantissa_lt.le
    have hn' : (2 : ℚ) ^ 52 ≤ n := by exact_mod_cast hn
    calc (x.mantissa * 2 ^ x.exponent : ℚ) ≤ 2 ^ 53 * 2 ^ (e - 1) := by
          gcongr
          · exact one_le_two
          · omega
      _ = 2 ^ 52 * 2 ^ e := by rw [zpow_sub_one₀ two_ne_zero]; ring
      _ ≤ n * 2 ^ e := by gcongr

/-- The number `± 10 ^ 16`, which the format has. -/
def tenToSixteen (negative : Bool) : Finite64 where
  negative := negative
  mantissa := 5000000000000000
  exponent := 1
  mantissa_lt := by decide
  le_exponent := by decide
  exponent_le := by decide
  normal := .inr (by decide)

/-- The number next to `± 10 ^ -4`; it is a little greater. -/
def tenthOfThousandth (negative : Bool) : Finite64 where
  negative := negative
  mantissa := 7378697629483821
  exponent := -66
  mantissa_lt := by decide
  le_exponent := by decide
  exponent_le := by decide
  normal := .inr (by decide)

theorem shortest_tenToSixteen (negative : Bool) :
    (tenToSixteen negative).shortest .up = ⟨negative, 1, 16⟩ := by
  cases negative <;> decide +kernel

theorem ofDecimal_tenToSixteen :
    Binary64.ofDecimal (.ofDigits false "10000000000000000".toList ['0'] 0) =
      .finite (tenToSixteen false) := by
  decide +kernel

theorem shortest_tenthOfThousandth (negative : Bool) :
    (tenthOfThousandth negative).shortest .up = ⟨negative, 1, -4⟩ := by
  cases negative <;> decide +kernel

theorem shortest_lt_iff_of_sixteen (x : Finite64) :
    (x.shortest .up).absolute < 10 ^ (16 : Int) ↔ x.absolute < 10 ^ (16 : Int) := by
  have h := @shortest_lt_shortest_iff .up x (tenToSixteen x.negative) rfl
  rw [shortest_tenToSixteen] at h
  norm_num [Decimal.absolute, absolute, tenToSixteen] at h ⊢
  exact h

theorem shortest_lt_iff_of_four (x : Finite64) :
    (x.shortest .up).absolute < 10 ^ (-4 : Int) ↔ x.absolute < 10 ^ (-4 : Int) := by
  have h := @shortest_lt_shortest_iff .up x (tenthOfThousandth x.negative) rfl
  rw [shortest_tenthOfThousandth] at h
  have hnext := x.absolute_le_or_le (n := 7378697629483820) (by norm_num) (-66)
  norm_num [Decimal.absolute, absolute, tenthOfThousandth] at h hnext ⊢
  rw [h]
  constructor
  · intro hlt
    rcases hnext with hle | hle <;> linarith
  · intro hlt
    linarith

end Finite64

end FilterQuery
