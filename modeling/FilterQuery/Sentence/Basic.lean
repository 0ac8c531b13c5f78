import FilterQuery.Query

/-!
# Sentences

The phrases of the query language, built up as they are read: OR joins conjunctions, AND joins
operands, and an operand is a test or a group in parentheses. A phrase keeps its parentheses and
leaves out a direction that is not written, so its tokens can be read off it. What it asks for, its
query, has neither: a group is what stands in it, and runs are joined by `Condition.join`.
-/

namespace FilterQuery

/-- At least one thing, the last one added last. -/
inductive Run (α : Type) where
  | one (first : α)
  | more (init : Run α) (last : α)
  deriving DecidableEq

namespace Run

variable {α : Type}

def push (init : Option (Run α)) (last : α) : Run α :=
  match init with
  | none => .one last
  | some run => .more run last

def toList : Run α → List α
  | .one first => [first]
  | .more init last => init.toList ++ [last]

end Run

/-- A question about one identifier. -/
inductive Test where
  | compare (identifier : String) (op : Comparison) (value : Literal)
  | member (identifier : String) (negated : Bool) (values : Run Literal)
  deriving DecidableEq

mutual

/-- Conjunctions joined by OR. -/
inductive Disjunction where
  | one (first : Conjunction)
  | more (init : Disjunction) (last : Conjunction)

/-- Operands joined by AND. -/
inductive Conjunction where
  | one (first : Operand)
  | more (init : Conjunction) (last : Operand)

/-- A test, or a disjunction in parentheses. -/
inductive Operand where
  | test (t : Test)
  | group (d : Disjunction)

end

/-- An identifier to sort by, with the direction that is written. -/
structure SortTerm where
  identifier : String
  direction : Option Direction
  deriving DecidableEq

/-- A whole text: a disjunction, sort terms, or both. -/
inductive Sentence where
  | filter (d : Disjunction)
  | order (terms : Run SortTerm)
  | both (d : Disjunction) (terms : Run SortTerm)

/-- Adds a conjunction to a disjunction that may not have begun. -/
def Disjunction.push (init : Option Disjunction) (last : Conjunction) : Disjunction :=
  match init with
  | none => .one last
  | some d => .more d last

/-- Adds an operand to a conjunction that may not have begun. -/
def Conjunction.push (init : Option Conjunction) (last : Operand) : Conjunction :=
  match init with
  | none => .one last
  | some c => .more c last

/-- Sort terms with the disjunction in front of them, if there is one. -/
def Sentence.ofOrder (d : Option Disjunction) (terms : Run SortTerm) : Sentence :=
  match d with
  | none => .order terms
  | some d => .both d terms

def Test.leaf : Test → Leaf
  | .compare identifier op value => ⟨identifier, .compare op value⟩
  | .member identifier negated values => ⟨identifier, .member negated values.toList⟩

mutual

/-- The first condition that a disjunction joins, and the others. -/
def Disjunction.conditions : Disjunction → Condition × List Condition
  | .one first => (.join .and first.conditions.1 first.conditions.2, [])
  | .more init last =>
    (init.conditions.1, init.conditions.2 ++ [.join .and last.conditions.1 last.conditions.2])

/-- The first condition that a conjunction joins, and the others. -/
def Conjunction.conditions : Conjunction → Condition × List Condition
  | .one first => (first.condition, [])
  | .more init last => (init.conditions.1, init.conditions.2 ++ [last.condition])

def Operand.condition : Operand → Condition
  | .test t => .leaf t.leaf
  | .group d => .join .or d.conditions.1 d.conditions.2

end

def Disjunction.condition (d : Disjunction) : Condition :=
  .join .or d.conditions.1 d.conditions.2

def Conjunction.condition (c : Conjunction) : Condition :=
  .join .and c.conditions.1 c.conditions.2

def SortTerm.item (t : SortTerm) : SortItem :=
  ⟨t.identifier, t.direction.getD .default⟩

def Sentence.query : Sentence → Query
  | .filter d => ⟨some d.condition, none⟩
  | .order terms => ⟨none, some (terms.toList.map SortTerm.item)⟩
  | .both d terms => ⟨some d.condition, some (terms.toList.map SortTerm.item)⟩

/-- The tokens of a run of phrases with commas between them. -/
def Run.tokens {α : Type} (tokens : α → List Token) : Run α → List Token
  | .one first => tokens first
  | .more init last => init.tokens tokens ++ .comma :: tokens last

def Test.tokens : Test → List Token
  | .compare identifier op value => [.identifier identifier, .comparison op, .literal value]
  | .member identifier negated values =>
    .identifier identifier :: ((if negated then [.keyword .not] else []) ++
      .keyword .inList :: .openParen :: (values.tokens (fun v => [.literal v]) ++ [.closeParen]))

mutual

def Disjunction.tokens : Disjunction → List Token
  | .one first => first.tokens
  | .more init last => init.tokens ++ .keyword .or :: last.tokens

def Conjunction.tokens : Conjunction → List Token
  | .one first => first.tokens
  | .more init last => init.tokens ++ .keyword .and :: last.tokens

def Operand.tokens : Operand → List Token
  | .test t => t.tokens
  | .group d => .openParen :: (d.tokens ++ [.closeParen])

end

def Direction.token : Direction → Token
  | .ascending => .keyword .asc
  | .descending => .keyword .desc

def SortTerm.tokens (t : SortTerm) : List Token :=
  .identifier t.identifier :: (t.direction.map Direction.token).toList

def Run.orderTokens (terms : Run SortTerm) : List Token :=
  .keyword .order :: .keyword .byKeys :: terms.tokens SortTerm.tokens

def Sentence.tokens : Sentence → List Token
  | .filter d => d.tokens
  | .order terms => terms.orderTokens
  | .both d terms => d.tokens ++ terms.orderTokens

mutual

/-- The most groups of a disjunction that are open at one place. -/
def Disjunction.depth : Disjunction → Nat
  | .one first => first.depth
  | .more init last => max init.depth last.depth

/-- The most groups of a conjunction that are open at one place. -/
def Conjunction.depth : Conjunction → Nat
  | .one first => first.depth
  | .more init last => max init.depth last.depth

/-- The most groups of an operand that are open at one place. -/
def Operand.depth : Operand → Nat
  | .test _ => 0
  | .group d => d.depth + 1

end

end FilterQuery
