import FilterQuery.Toml.Text

/-!
# Dates and times in TOML

A date, a time, or a date with a time and perhaps an offset. Each is kept as the text that writes it
in full: a capital `T` between date and time, no zeros at the end of a fraction, at most nine digits
of it, and `Z` or hours and minutes for the offset.
-/

namespace FilterQuery.Toml

def readFixed : Nat → Nat → Reader Nat
  | 0, n, cs => some (n, cs)
  | count + 1, n, c :: cs =>
    if c.isDigit then readFixed count (10 * n + (c.toNat - '0'.toNat)) cs else none
  | _ + 1, _, [] => none

def readPair (least greatest : Nat) : Reader Nat := fun cs => do
  let (n, rest) ← readFixed 2 0 cs
  if least ≤ n ∧ n ≤ greatest then return (n, rest) else none

def readChar (c : Char) : List Char → Option (List Char)
  | d :: cs => if d = c then some cs else none
  | [] => none

/-- A number with zeros in front, at least `width` characters long. -/
def padded (width n : Nat) : String :=
  let digits := Nat.toDigits 10 n
  String.ofList (List.replicate (width - digits.length) '0' ++ digits)

/-- Whether a year has a leap day. -/
def isLeapYear (year : Nat) : Bool :=
  year % 4 = 0 && (year % 100 ≠ 0 || year % 400 = 0)

def daysIn (year month : Nat) : Nat :=
  if month = 2 then if isLeapYear year then 29 else 28
  else if month = 4 ∨ month = 6 ∨ month = 9 ∨ month = 11 then 30
  else 31

def readDate : Reader String := fun cs => do
  let (year, rest) ← readFixed 4 0 cs
  let rest ← readChar '-' rest
  let (month, rest) ← readPair 1 12 rest
  let rest ← readChar '-' rest
  let (day, rest) ← readPair 1 (daysIn year month) rest
  return (padded 4 year ++ "-" ++ padded 2 month ++ "-" ++ padded 2 day, rest)

/-- The fraction of a second as text: nothing if it is zero. -/
def fractionText (digits : List Char) : String :=
  match ((digits.take 9).reverse.dropWhile (· = '0')).reverse with
  | [] => ""
  | digits => "." ++ String.ofList digits

/-- Reads the fraction of a second, if there is one here. -/
def readSecondFraction (cs : List Char) : String × List Char :=
  match cs with
  | '.' :: rest =>
    match rest.takeWhile Char.isDigit with
    | [] => ("", cs)
    | digits => (fractionText digits, rest.dropWhile Char.isDigit)
  | _ => ("", cs)

def readTime : Reader String := fun cs => do
  let (hour, rest) ← readPair 0 23 cs
  let rest ← readChar ':' rest
  let (minute, rest) ← readPair 0 59 rest
  let rest ← readChar ':' rest
  let (second, rest) ← readPair 0 60 rest
  let (fraction, rest) := readSecondFraction rest
  return (padded 2 hour ++ ":" ++ padded 2 minute ++ ":" ++ padded 2 second ++ fraction, rest)

/-- Reads the hours and minutes of an offset; an offset of zero is positive. -/
def readOffsetFrom (sign : String) : Reader String := fun cs => do
  let (hour, rest) ← readPair 0 23 cs
  let rest ← readChar ':' rest
  let (minute, rest) ← readPair 0 59 rest
  let sign := if hour = 0 ∧ minute = 0 then "+" else sign
  return (sign ++ padded 2 hour ++ ":" ++ padded 2 minute, rest)

def readOffset : Reader String
  | 'Z' :: cs => some ("Z", cs)
  | 'z' :: cs => some ("Z", cs)
  | '+' :: cs => readOffsetFrom "+" cs
  | '-' :: cs => readOffsetFrom "-" cs
  | cs => some ("", cs)

/-- Reads what separates a time from its date, and the time. -/
def readTimeOfDate : Reader String
  | c :: cs =>
    if c = 'T' || c = 't' || c = ' ' then
      (readTime cs).map fun (time, rest) => ("T" ++ time, rest)
    else none
  | [] => none

def readDateTime (cs : List Char) : Option (Toml × List Char) :=
  match readDate cs with
  | none => (readTime cs).map fun (time, rest) => (.dateTime time, rest)
  | some (date, rest) =>
    match readTimeOfDate rest with
    | none => some (.dateTime date, rest)
    | some (time, rest) =>
      (readOffset rest).map fun (offset, rest) => (.dateTime (date ++ time ++ offset), rest)

end FilterQuery.Toml
