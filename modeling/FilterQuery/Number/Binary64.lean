import FilterQuery.Number.Decimal

/-!
# Binary numbers of double precision

The finite numbers are `± mantissa · 2 ^ exponent` with a mantissa below `2 ^ 53`; each is kept with
the least exponent that the format allows, so the mantissa is at least `2 ^ 52` unless the exponent
is the least of all, and equal numbers are equal as data, the two zeros apart. A decimal number is
rounded to the nearest of them, a tie going to the even mantissa, and one that lies past the
greatest of them becomes an infinity.
-/

namespace FilterQuery

/-- A finite number of double precision. -/
structure Finite64 where
  negative : Bool
  mantissa : Nat
  exponent : Int
  mantissa_lt : mantissa < 9007199254740992
  le_exponent : -1074 ≤ exponent
  exponent_le : exponent ≤ 971
  normal : exponent = -1074 ∨ 4503599627370496 ≤ mantissa
  deriving DecidableEq

/-- A number of double precision, or not a number. -/
inductive Binary64 where
  | finite (x : Finite64)
  | infinite (negative : Bool)
  | nan
  deriving DecidableEq

namespace Finite64

def zero (negative : Bool) : Finite64 where
  negative := negative
  mantissa := 0
  exponent := -1074
  mantissa_lt := by decide
  le_exponent := by decide
  exponent_le := by decide
  normal := .inl rfl

def toDecimal (x : Finite64) : Decimal :=
  if 0 ≤ x.exponent then ⟨x.negative, x.mantissa * Nat.pow 2 x.exponent.toNat, 0⟩
  else ⟨x.negative, x.mantissa * Nat.pow 5 (-x.exponent).toNat, x.exponent⟩

def sameNumber (x y : Finite64) : Bool :=
  x = y || x.mantissa = 0 && y.mantissa = 0

end Finite64

namespace Binary64

/-- The natural number nearest to `num / den`, the even one of two. -/
def roundQuotient (num den : Nat) : Nat :=
  let low := num / den
  let rest := num % den
  if 2 * rest < den then low
  else if den < 2 * rest then low + 1
  else low + low % 2

/-- The greatest `e` with `2 ^ e ≤ num / den`. -/
def log2Quotient (num den : Nat) : Int :=
  let e : Int := (num.log2 : Int) - den.log2
  if num * Nat.pow 2 (-e).toNat < den * Nat.pow 2 e.toNat then e - 1 else e

/-- The number `± mantissa · 2 ^ exponent`, or the infinity of its sign if the format has no room
for it. -/
def ofParts (negative : Bool) (mantissa : Nat) (exponent : Int) : Binary64 :=
  if h : mantissa < 9007199254740992 ∧ -1074 ≤ exponent ∧ exponent ≤ 971 ∧
      (exponent = -1074 ∨ 4503599627370496 ≤ mantissa) then
    .finite ⟨negative, mantissa, exponent, h.1, h.2.1, h.2.2.1, h.2.2.2⟩
  else .infinite negative

/-- The number nearest to `± num / den`. -/
def ofQuotient (negative : Bool) (num den : Nat) : Binary64 :=
  if num = 0 then .finite (.zero negative)
  else
    let exponent := max (log2Quotient num den - 52) (-1074)
    let mantissa :=
      roundQuotient (num * Nat.pow 2 (-exponent).toNat) (den * Nat.pow 2 exponent.toNat)
    if mantissa = 9007199254740992 then ofParts negative 4503599627370496 (exponent + 1)
    else ofParts negative mantissa exponent

/-- The number nearest to a decimal number. -/
def ofDecimal (d : Decimal) : Binary64 :=
  ofQuotient d.negative (d.coefficient * Nat.pow 10 d.exponent.toNat)
    (Nat.pow 10 (-d.exponent).toNat)

def finite? : Binary64 → Option Finite64
  | .finite x => some x
  | _ => none

/-- Equality as numbers: the two zeros are equal, and what is not a number equals nothing. -/
def sameNumber : Binary64 → Binary64 → Bool
  | .finite x, .finite y => x.sameNumber y
  | .infinite a, .infinite b => a = b
  | _, _ => false

end Binary64

end FilterQuery
