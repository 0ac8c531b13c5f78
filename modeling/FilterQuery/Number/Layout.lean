import FilterQuery.Number.Shortest

/-!
# Number layout

How the digits of a number become text. A layout says which powers of ten are written in place, with
a point and at least one digit behind it, and which with an exponent; whether a positive exponent
carries a sign; and which way a tie between two shortest digit strings goes.
-/

namespace FilterQuery

/-- The decisions that one form of writing numbers makes. -/
structure Layout where
  tie : Tie
  leastPlain : Int
  greatestPlain : Int
  plusSign : Bool

namespace Layout

def json : Layout := ⟨.toEven, -5, 15, true⟩

/-- The layout of numbers in messages and in listings. -/
def message : Layout := ⟨.up, -4, 15, false⟩

end Layout

namespace Decimal

/-- The significant digits: those of the coefficient without the zeros at its end. -/
def significant (d : Decimal) : List Char :=
  ((Nat.toDigits 10 d.coefficient).reverse.dropWhile (· = '0')).reverse

def magnitude (d : Decimal) : Int :=
  d.exponent + d.width - 1

/-- Writes `digits` with the point behind the digit of `10 ^ 0`; the first digit is that of
`10 ^ magnitude`. -/
def plain (digits : List Char) (magnitude : Int) : List Char :=
  if magnitude < 0 then
    '0' :: '.' :: (List.replicate (-magnitude - 1).toNat '0' ++ digits)
  else
    let places := magnitude.toNat + 1
    let whole := digits.take places ++ List.replicate (places - digits.length) '0'
    let fraction := digits.drop places
    whole ++ '.' :: (if fraction = [] then ['0'] else fraction)

/-- Writes `digits` with the point behind the first one and the power of ten as an exponent. -/
def scientific (plusSign : Bool) (digits : List Char) (magnitude : Int) : List Char :=
  let fraction := digits.drop 1
  let sign := if magnitude < 0 then ['-'] else if plusSign then ['+'] else []
  digits.take 1 ++ (if fraction = [] then [] else '.' :: fraction) ++
    'e' :: (sign ++ Nat.toDigits 10 magnitude.natAbs)

def toText (layout : Layout) (d : Decimal) : List Char :=
  let sign := if d.negative then ['-'] else []
  if d.coefficient = 0 then sign ++ ['0', '.', '0']
  else if layout.leastPlain ≤ d.magnitude ∧ d.magnitude ≤ layout.greatestPlain then
    sign ++ plain d.significant d.magnitude
  else sign ++ scientific layout.plusSign d.significant d.magnitude

end Decimal

def Finite64.toText (layout : Layout) (x : Finite64) : String :=
  String.ofList ((x.shortest layout.tie).toText layout)

def Binary64.toText : Binary64 → String
  | .finite x => x.toText .message
  | .infinite false => "inf"
  | .infinite true => "-inf"
  | .nan => "NaN"

end FilterQuery
