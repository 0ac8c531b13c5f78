import FilterQuery.Number.Binary64
import Mathlib.Algebra.Order.Field.Power
import Mathlib.Data.Int.Log
import Mathlib.Data.Rat.Floor
import Mathlib.Tactic.Positivity

/-!
# Numbers that need no rounding

A quotient that is a number of the format rounds to that number (`ofQuotient_of_eq`). The power of
two that rounding goes by is the binary logarithm of the quotient (`log2Quotient_eq_log`).
-/

namespace FilterQuery.Binary64

theorem zpow_eq_quotient (e : Int) :
    (2 : ℚ) ^ e = (Nat.pow 2 e.toNat : ℕ) / (Nat.pow 2 (-e).toNat : ℕ) := by
  obtain ⟨n, rfl | rfl⟩ := e.eq_nat_or_neg
  · simp
  · simp [zpow_neg]

theorem quotient_lt_zpow_iff {n d : Nat} (hd : d ≠ 0) (e : Int) :
    (n : ℚ) / d < 2 ^ e ↔ n * Nat.pow 2 (-e).toNat < d * Nat.pow 2 e.toNat := by
  have hd' : (0 : ℚ) < d := by positivity
  have hp : (0 : ℚ) < (Nat.pow 2 (-e).toNat : ℕ) := by exact_mod_cast Nat.two_pow_pos _
  rw [zpow_eq_quotient, div_lt_div_iff₀ hd' hp, mul_comm (Nat.cast (Nat.pow 2 e.toNat))]
  exact_mod_cast Iff.rfl

theorem log_eq_of_bounds {q : ℚ} {e : Int} (hl : 2 ^ e ≤ q) (hu : q < 2 ^ (e + 1)) :
    Int.log 2 q = e := by
  have hq : 0 < q := lt_of_lt_of_le (by positivity) hl
  have h₁ : e ≤ Int.log 2 q := (Int.zpow_le_iff_le_log one_lt_two hq).1 (by exact_mod_cast hl)
  have h₂ : Int.log 2 q < e + 1 := (Int.lt_zpow_iff_log_lt one_lt_two hq).1 (by exact_mod_cast hu)
  omega

theorem log2_bounds {n : Nat} (hn : n ≠ 0) :
    (2 : ℚ) ^ (n.log2 : Int) ≤ n ∧ (n : ℚ) < 2 ^ ((n.log2 : Int) + 1) := by
  have hl := Nat.log2_self_le hn
  have hu : n < 2 ^ (n.log2 + 1) := Nat.lt_log2_self
  exact ⟨by exact_mod_cast hl, by exact_mod_cast hu⟩

/-- The power of two that rounding goes by is the greatest one that is not above the quotient. -/
theorem log2Quotient_eq_log {num den : Nat} (hn : num ≠ 0) (hd : den ≠ 0) :
    log2Quotient num den = Int.log 2 ((num : ℚ) / den) := by
  obtain ⟨hnl, hnu⟩ := log2_bounds hn
  obtain ⟨hdl, hdu⟩ := log2_bounds hd
  have hd' : (0 : ℚ) < den := by positivity
  set e : Int := (num.log2 : Int) - den.log2 with he
  have hl : (2 : ℚ) ^ (e - 1) ≤ num / den := by
    rw [le_div_iff₀ hd']
    calc (2 : ℚ) ^ (e - 1) * den ≤ 2 ^ (e - 1) * 2 ^ ((den.log2 : Int) + 1) := by gcongr
      _ = 2 ^ (num.log2 : Int) := by rw [← zpow_add₀ two_ne_zero]; congr 1; omega
      _ ≤ num := hnl
  have hu : (num : ℚ) / den < 2 ^ (e + 1) := by
    rw [div_lt_iff₀ hd']
    calc (num : ℚ) < 2 ^ ((num.log2 : Int) + 1) := hnu
      _ = 2 ^ (e + 1) * 2 ^ (den.log2 : Int) := by rw [← zpow_add₀ two_ne_zero]; congr 1; omega
      _ ≤ 2 ^ (e + 1) * den := by gcongr
  rw [log2Quotient]
  simp only [← he]
  split <;> rename_i h <;> rw [← quotient_lt_zpow_iff hd] at h
  · exact (log_eq_of_bounds hl (by rwa [sub_add_cancel])).symm
  · exact (log_eq_of_bounds (not_lt.1 h) hu).symm

theorem roundQuotient_mul (n : Nat) {d : Nat} (hd : 0 < d) : roundQuotient (n * d) d = n := by
  unfold roundQuotient
  simp [hd]

theorem log_mul_zpow {m : Nat} (hm : m ≠ 0) (e : Int) :
    Int.log 2 ((m : ℚ) * 2 ^ e) = m.log2 + e := by
  obtain ⟨hl, hu⟩ := log2_bounds hm
  refine log_eq_of_bounds ?_ ?_
  · rw [zpow_add₀ two_ne_zero]
    gcongr
  · rw [add_right_comm, zpow_add₀ two_ne_zero]
    gcongr

/-- A quotient that is a number of the format is that number. -/
theorem ofQuotient_of_eq {x : Finite64} {num den : Nat} (hd : den ≠ 0)
    (h : num * Nat.pow 2 (-x.exponent).toNat = x.mantissa * (den * Nat.pow 2 x.exponent.toNat)) :
    ofQuotient x.negative num den = .finite x := by
  obtain ⟨negative, m, e, hm, hle, hge, hnormal⟩ := x
  simp only at h ⊢
  have hpow : ∀ n, 0 < Nat.pow 2 n := fun n => Nat.two_pow_pos n
  have hden : 0 < den * Nat.pow 2 e.toNat := Nat.mul_pos (Nat.pos_of_ne_zero hd) (hpow _)
  by_cases hn : num = 0
  · -- a zero has the least exponent of all
    subst hn
    have hm0 : m = 0 := by
      have := (hpow e.toNat).ne'
      simpa [hd, this] using h
    have he : e = -1074 := by omega
    subst hm0 he
    rfl
  have hm0 : m ≠ 0 := by
    intro heq
    subst heq
    simp [hn] at h
  have hq : (num : ℚ) / den = m * 2 ^ e := by
    have hp : (Nat.pow 2 (-e).toNat : ℚ) ≠ 0 := by exact_mod_cast (hpow _).ne'
    have hd' : (den : ℚ) ≠ 0 := by exact_mod_cast hd
    have h' : (num : ℚ) * (Nat.pow 2 (-e).toNat : ℕ) = m * (den * (Nat.pow 2 e.toNat : ℕ)) := by
      exact_mod_cast h
    rw [zpow_eq_quotient, mul_div_assoc', div_eq_div_iff hd' (by exact_mod_cast hp), h']
    ring
  have hlog : log2Quotient num den = m.log2 + e := by
    rw [log2Quotient_eq_log hn hd, hq, log_mul_zpow hm0]
  -- the mantissa has 53 bits, or the exponent is the least of all
  have hbits : m.log2 < 53 := (Nat.log2_lt hm0).2 hm
  have hexp : max (log2Quotient num den - 52) (-1074) = e := by
    rw [hlog]
    rcases hnormal with he | hm'
    · omega
    · have : 52 ≤ m.log2 := (Nat.le_log2 hm0).2 hm'
      omega
  rw [ofQuotient, if_neg hn]
  simp only [hexp]
  rw [h, roundQuotient_mul m hden, if_neg hm.ne, ofParts, dif_pos ⟨hm, hle, hge, hnormal⟩]

end FilterQuery.Binary64
