import FilterQuery.Condition

/-!
# Queries

A query filters by a condition and sorts by a list of identifiers. Either part may be absent, which
is not the same as being empty.
-/

namespace FilterQuery

/-- Which way an identifier sorts. -/
inductive Direction where
  | ascending
  | descending
  deriving DecidableEq

namespace Direction

/-- The direction of an identifier that is given none. -/
def default : Direction := .ascending

def sign : Direction → Int
  | .ascending => 1
  | .descending => -1

end Direction

/-- An identifier to sort by. -/
structure SortItem where
  identifier : String
  direction : Direction
  deriving DecidableEq

/-- The direction that a list of sort items gives to `identifier`: the last one counts. -/
def SortItem.directionOf? (items : List SortItem) (identifier : String) : Option Direction :=
  (items.reverse.find? (·.identifier = identifier)).map (·.direction)

/-- What a text asks for. -/
structure Query where
  filter : Option Condition
  order : Option (List SortItem)

namespace Query

def empty : Query := ⟨none, none⟩

def isEmpty (q : Query) : Bool :=
  q.filter.isNone && q.order.isNone

def sameValue (q r : Query) : Bool :=
  q.order = r.order &&
    match q.filter, r.filter with
    | none, none => true
    | some x, some y => x.sameValue y
    | _, _ => false

end Query

end FilterQuery
