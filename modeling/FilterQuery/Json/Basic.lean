import FilterQuery.Entries
import FilterQuery.Number.Binary64

/-!
# JSON values

Objects keep the order of their entries, and a whole number differs from a number with a point.
A number with a point is always finite; what is not a finite number becomes `null`.
-/

namespace FilterQuery

/-- A JSON value. -/
inductive Json where
  | null
  | bool (b : Bool)
  | int (n : Int)
  | float (x : Finite64)
  | str (s : String)
  | arr (items : List Json)
  | obj (fields : List (String × Json))

namespace Json

def ofBinary64 (x : Binary64) : Json :=
  match x.finite? with
  | some x => .float x
  | none => .null

def single (key : String) (value : Json) : Json :=
  .obj [(key, value)]

end Json

end FilterQuery
