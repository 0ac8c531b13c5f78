import FilterQuery.Number.Binary64

/-!
# Shortest digits

A finite number is shown with as few digits as still read back to it. Its exact decimal expansion
is cut after the first digit, then after the second, and so on; at each place the expansion lies
between two numbers of that many digits, and the first place where one of the two reads back ends
the search. The whole expansion always reads back, so the search needs no other end.
-/

namespace FilterQuery

/-- Which of two numbers of equally many digits is taken if both are equally near. -/
inductive Tie where
  | toEven
  | up
  deriving DecidableEq

namespace Tie

def pick (tie : Tie) (low : Nat) : Nat :=
  match tie with
  | .toEven => low + low % 2
  | .up => low + 1

end Tie

namespace Decimal

/-- The two numbers with `places` digits less between which `d` lies, the nearer one first. -/
def neighbours (tie : Tie) (d : Decimal) (places : Nat) : List Decimal :=
  let unit := Nat.pow 10 places
  let low := d.coefficient / unit
  let rest := d.coefficient % unit
  let near :=
    if 2 * rest < unit then low
    else if unit < 2 * rest then low + 1
    else tie.pick low
  let far := if near = low then low + 1 else low
  [⟨d.negative, near, d.exponent + places⟩, ⟨d.negative, far, d.exponent + places⟩]

end Decimal

namespace Finite64

def readsBack (x : Finite64) (d : Decimal) : Bool :=
  Binary64.ofDecimal d = .finite x

/-- The first decimal number that reads back as `x` when at most `places` digits are left off. -/
def shortestFrom (tie : Tie) (x : Finite64) : Nat → Decimal
  | 0 => x.toDecimal
  | places + 1 =>
    match (x.toDecimal.neighbours tie (places + 1)).find? x.readsBack with
    | some d => d
    | none => shortestFrom tie x places

/-- The number with the fewest digits that reads back as `x`, and of those the nearest to it. -/
def shortest (tie : Tie) (x : Finite64) : Decimal :=
  shortestFrom tie x (x.toDecimal.width - 1)

end Finite64

end FilterQuery
