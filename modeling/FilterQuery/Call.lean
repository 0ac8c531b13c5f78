import FilterQuery.Query

/-!
# Calls

A call is what a leaf looks like from outside the tree: an identifier, an operator and what the
operator is applied to. Its document is the object that stands for the leaf where nothing else is
asked for.
-/

namespace FilterQuery

/-- A comparison or a test for membership. -/
inductive Operator where
  | compare (op : Comparison)
  | isIn
  | isNotIn
  deriving DecidableEq

namespace Operator

/-- The key under which a document holds what the operator is applied to; equality has none. -/
def symbol? : Operator → Option String
  | .compare .equal => none
  | .compare .notEqual => some "$ne"
  | .compare .less => some "$lt"
  | .compare .greater => some "$gt"
  | .compare .lessEqual => some "$lte"
  | .compare .greaterEqual => some "$gte"
  | .isIn => some "$in"
  | .isNotIn => some "$nin"

def toText : Operator → String
  | .compare op => op.toText
  | .isIn => "IN"
  | .isNotIn => "NOT IN"

end Operator

/-- What an operator is applied to. -/
inductive Argument where
  | scalar (value : Literal)
  | list (values : List Literal)
  deriving DecidableEq

namespace Argument

def scalar? : Argument → Option Literal
  | .scalar value => some value
  | .list _ => none

def list? : Argument → Option (List Literal)
  | .scalar _ => none
  | .list values => some values

def toJson : Argument → Json
  | .scalar value => value.toJson
  | .list values => .arr (values.map Literal.toJson)

end Argument

/-- A leaf from outside; operator and argument need not fit. -/
structure Call where
  identifier : String
  operator : Operator
  argument : Argument
  deriving DecidableEq

def Call.document (c : Call) : Json :=
  .single c.identifier <|
    match c.operator.symbol? with
    | none => c.argument.toJson
    | some symbol => .single symbol c.argument.toJson

def Leaf.call (l : Leaf) : Call :=
  match l.predicate with
  | .compare op value => ⟨l.identifier, .compare op, .scalar value⟩
  | .member negated values => ⟨l.identifier, if negated then .isNotIn else .isIn, .list values⟩

/-- The key under which a document holds the conditions that a node joins. -/
def Connective.symbol : Connective → String
  | .and => "$and"
  | .or => "$or"

end FilterQuery
