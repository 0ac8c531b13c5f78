import FilterQuery.Json.Basic
import FilterQuery.Number.Layout
import FilterQuery.Text.Quoted

/-!
# Literals

The values that a condition compares with. A number keeps the kind it was written with: `10` and
`10.0` are different literals.
-/

namespace FilterQuery

/-- A value in a query. -/
inductive Literal where
  | null
  | bool (b : Bool)
  | int (n : Int)
  | float (x : Binary64)
  | string (s : String)
  deriving DecidableEq

namespace Literal

def toJson : Literal → Json
  | .null => .null
  | .bool b => .bool b
  | .int n => .int n
  | .float x => .ofBinary64 x
  | .string s => .str s

/-- A literal as a query writes it; only a number with an exponent has no such form. -/
def toText : Literal → String
  | .null => "null"
  | .bool b => toString b
  | .int n => toString n
  | .float x => x.toText
  | .string s => Quoted.encode s

/-- Equality of values: like equality, but numbers with a point are compared as numbers. -/
def sameValue : Literal → Literal → Bool
  | .float x, .float y => x.sameNumber y
  | l, m => l = m

end Literal

end FilterQuery
