/-!
# Decimal numbers

A decimal number is a sign, a natural number and a power of ten. Numerals are read into decimals
without loss; rounding comes later, so a number is rounded once however it is written.
-/

namespace FilterQuery

/-- The number `± coefficient · 10 ^ exponent`. -/
structure Decimal where
  negative : Bool
  coefficient : Nat
  exponent : Int
  deriving DecidableEq

namespace Decimal

def natOfDigits (digits : List Char) : Nat :=
  Nat.ofDigitChars 10 digits 0

/-- The number written with the digits `whole` in front of the point, the digits `fraction` behind
it, and times a power of ten. -/
def ofDigits (negative : Bool) (whole fraction : List Char) (exponent : Int) : Decimal :=
  ⟨negative, natOfDigits (whole ++ fraction), exponent - fraction.length⟩

/-- The sign in front of a numeral, and the rest of it. -/
def splitSign : List Char → Bool × List Char
  | '-' :: cs => (true, cs)
  | '+' :: cs => (false, cs)
  | cs => (false, cs)

/-- The whole number that a numeral of an optional sign and digits writes. -/
def intOfText? (cs : List Char) : Option Int :=
  let (negative, digits) := splitSign cs
  if digits ≠ [] ∧ digits.all Char.isDigit then
    some (if negative then -(natOfDigits digits : Int) else natOfDigits digits)
  else none

/-- Brings the exponent of a numeral with `digits` digits near enough to zero to compute with. Past
these bounds the number is too large for a binary number of double precision, or rounds to zero,
whatever its digits are. -/
def boundExponent (digits : Nat) (exponent : Int) : Int :=
  max (-(digits + 400)) (min (digits + 400) exponent)

/-- The exponent part of a numeral: nothing, or `e` or `E` and a whole number. -/
def exponentOfText? : List Char → Option Int
  | [] => some 0
  | c :: cs => if c = 'e' ∨ c = 'E' then intOfText? cs else none

/-- Reads a numeral: an optional sign, digits, optionally a point and digits, optionally an
exponent. Digits may be missing on one side of the point. -/
def ofText? (cs : List Char) : Option Decimal :=
  let (negative, cs) := splitSign cs
  let whole := cs.takeWhile Char.isDigit
  let (fraction, cs) :=
    match cs.dropWhile Char.isDigit with
    | '.' :: cs => (cs.takeWhile Char.isDigit, cs.dropWhile Char.isDigit)
    | cs => ([], cs)
  if whole = [] ∧ fraction = [] then none
  else (exponentOfText? cs).map fun exponent =>
    ofDigits negative whole fraction (boundExponent (whole.length + fraction.length) exponent)

def width (d : Decimal) : Nat :=
  (Nat.toDigits 10 d.coefficient).length

end Decimal

end FilterQuery
