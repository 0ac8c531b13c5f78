import FilterQuery.Lexeme.Scan
import FilterQuery.Toml.Text

/-!
# Numbers in TOML

Whole numbers are decimal or, without a sign, in base sixteen, eight or two, and have 64 bits.
Underscores may stand between two digits. A decimal number has no zero in front of other digits. A
number with a point or an exponent must not round to positive infinity.
-/

namespace FilterQuery.Toml

/-- Reads what follows the first digit of a run of digits; underscores are left out. -/
def readMoreDigits (isDigit : Char → Bool) : Reader (List Char)
  | [] => some ([], [])
  | '_' :: c :: cs =>
    if isDigit c then (readMoreDigits isDigit cs).map fun (digits, rest) => (c :: digits, rest)
    else none
  | c :: cs =>
    if isDigit c then (readMoreDigits isDigit cs).map fun (digits, rest) => (c :: digits, rest)
    else if c = '_' then none
    else some ([], c :: cs)

def readDigits (isDigit : Char → Bool) : Reader (List Char)
  | [] => none
  | c :: cs =>
    if isDigit c then (readMoreDigits isDigit cs).map fun (digits, rest) => (c :: digits, rest)
    else none

/-- Reads the digits of a decimal number in front of its point: a zero stands alone. -/
def readWhole : Reader (List Char)
  | '0' :: cs => some (['0'], cs)
  | cs => readDigits Char.isDigit cs

def readExponent (cs : List Char) : Option (Option Int × List Char) :=
  match cs with
  | c :: rest =>
    if c = 'e' || c = 'E' then do
      let (negative, rest) := Decimal.splitSign rest
      let (digits, rest) ← readDigits Char.isDigit rest
      let n : Int := Decimal.natOfDigits digits
      return (some (if negative then -n else n), rest)
    else some (none, cs)
  | [] => some (none, [])

/-- Reads a point and the digits behind it, if they are here. -/
def readFraction : List Char → Option (Option (List Char) × List Char)
  | '.' :: cs => (readDigits Char.isDigit cs).map fun (digits, rest) => (some digits, rest)
  | cs => some (none, cs)

def floatOfDigits? (negative : Bool) (whole fraction : List Char) (exponent : Int) : Option Toml :=
  let bounded := Decimal.boundExponent (whole.length + fraction.length) exponent
  match Binary64.ofDecimal (.ofDigits negative whole fraction bounded) with
  | .infinite false => none
  | x => some (.float x)

def intOf? (n : Int) : Option Toml :=
  if isInt64 n then some (.int n) else none

def readUnsigned (negative : Bool) : Reader Toml := fun cs => do
  let (whole, rest) ← readWhole cs
  let (fraction, rest) ← readFraction rest
  let (exponent, rest) ← readExponent rest
  match fraction, exponent with
  | none, none =>
    let n : Int := Decimal.natOfDigits whole
    return (← intOf? (if negative then -n else n), rest)
  | _, _ => return (← floatOfDigits? negative whole (fraction.getD []) (exponent.getD 0), rest)

def natOfHexDigits (base : Nat) (digits : List Char) : Nat :=
  digits.foldl (fun n c => base * n + (hexDigit? c).getD 0) 0

def readInBase (base : Nat) : Reader Toml := fun cs => do
  let isDigit := fun c => (hexDigit? c).any (· < base)
  let (digits, rest) ← readDigits isDigit cs
  return (← intOf? (natOfHexDigits base digits), rest)

/-- Reads infinity or not-a-number from behind its sign. -/
def readSpecial (negative : Bool) : Reader Toml
  | 'i' :: 'n' :: 'f' :: cs => some (.float (.infinite negative), cs)
  | 'n' :: 'a' :: 'n' :: cs => some (.float .nan, cs)
  | _ => none

def readNumber : Reader Toml
  | '0' :: 'x' :: cs => readInBase 16 cs
  | '0' :: 'o' :: cs => readInBase 8 cs
  | '0' :: 'b' :: cs => readInBase 2 cs
  | cs =>
    let (negative, rest) := Decimal.splitSign cs
    match readSpecial negative rest with
    | some result => some result
    | none => readUnsigned negative rest

end FilterQuery.Toml
