/-!
# Blank characters

The characters that may stand between two words of a query: exactly those with the Unicode
property White_Space. There are twenty-five of them.
-/

namespace FilterQuery

/-- The first and the last code point of each run of blank characters. -/
def blankRuns : List (Nat × Nat) :=
  [(0x09, 0x0D), (0x20, 0x20), (0x85, 0x85), (0xA0, 0xA0), (0x1680, 0x1680), (0x2000, 0x200A),
    (0x2028, 0x2029), (0x202F, 0x202F), (0x205F, 0x205F), (0x3000, 0x3000)]

/-- Whether `c` is white space in the sense of Unicode. -/
def isBlank (c : Char) : Bool :=
  blankRuns.any fun run => run.1 ≤ c.toNat && c.toNat ≤ run.2

def skipBlanks (cs : List Char) : List Char :=
  cs.dropWhile isBlank

end FilterQuery
