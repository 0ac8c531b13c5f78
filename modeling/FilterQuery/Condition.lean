import FilterQuery.Token

/-!
# Conditions

A condition is a leaf, which asks one thing of one identifier, or a node, which joins conditions by
AND or OR. `join` builds nodes so that a run of one condition is that condition and a node never
gets a child of its own connective that `join` built; a condition of this shape is normal.
-/

namespace FilterQuery

/-- What a leaf asks of its identifier. -/
inductive Predicate where
  | compare (op : Comparison) (value : Literal)
  | member (negated : Bool) (values : List Literal)
  deriving DecidableEq

/-- A condition on one identifier. -/
structure Leaf where
  identifier : String
  predicate : Predicate
  deriving DecidableEq

/-- A way to join conditions. -/
inductive Connective where
  | and
  | or
  deriving DecidableEq

/-- A tree of leaves. -/
inductive Condition where
  | leaf (l : Leaf)
  | node (connective : Connective) (children : List Condition)

def Predicate.sameValue : Predicate → Predicate → Bool
  | .compare o v, .compare p w => o = p && v.sameValue w
  | .member a vs, .member b ws =>
    a = b && vs.length = ws.length && (vs.zip ws).all fun (v, w) => v.sameValue w
  | _, _ => false

def Leaf.sameValue (l m : Leaf) : Bool :=
  l.identifier = m.identifier && l.predicate.sameValue m.predicate

namespace Condition

/-- The conditions that stand for `x` in a node of `c`: its children if it is such a node. -/
def splice (c : Connective) : Condition → List Condition
  | .node d children => if c = d then children else [.node d children]
  | .leaf l => [.leaf l]

def join (c : Connective) (first : Condition) : List Condition → Condition
  | [] => first
  | second :: rest => .node c ((first :: second :: rest).flatMap (splice c))

def connective? : Condition → Option Connective
  | .leaf _ => none
  | .node c _ => some c

def children : Condition → List Condition
  | .leaf _ => []
  | .node _ children => children

def identifier? : Condition → Option String
  | .leaf l => some l.identifier
  | .node _ _ => none

mutual

def leaves : Condition → List Leaf
  | .leaf l => [l]
  | .node _ children => leavesOfAll children

def leavesOfAll : List Condition → List Leaf
  | [] => []
  | x :: xs => x.leaves ++ leavesOfAll xs

end

mutual

/-- Whether every node joins at least two conditions, none of them a node of its connective. -/
def isNormal : Condition → Bool
  | .leaf _ => true
  | .node c children => 2 ≤ children.length && areNormalIn c children

/-- Whether the conditions of a run are normal, and no nodes of `c`. -/
def areNormalIn (c : Connective) : List Condition → Bool
  | [] => true
  | x :: xs => x.connective? ≠ some c && x.isNormal && areNormalIn c xs

end

mutual

def sameValue : Condition → Condition → Bool
  | .leaf l, .leaf m => l.sameValue m
  | .node c xs, .node d ys => c = d && sameValues xs ys
  | _, _ => false

/-- Equality of runs that compares numbers as numbers. -/
def sameValues : List Condition → List Condition → Bool
  | [], [] => true
  | x :: xs, y :: ys => x.sameValue y && sameValues xs ys
  | _, _ => false

end

end Condition

end FilterQuery
