import FilterQuery.Sentence.Basic

/-!
# Reading a sentence token by token

A stage is a sentence that is not complete: the open groups, and in the innermost of them the
phrases that have begun. A token takes a stage to the next one or is refused, and the stage knows
what it would have taken instead. At the end of the input a stage is a sentence or again tells what
is missing. A stage looks at no token but the one it is given.
-/

namespace FilterQuery

/-- What a reader can be waiting for. -/
inductive Expectation where
  | filterOrOrder
  | operand
  | fewerGroups
  | predicate
  | inList
  | value
  | listOpening
  | listSeparator
  | groupClosing
  | connective
  | byKeys
  | sortKey
  | sortSeparator
  deriving DecidableEq

def maxNesting : Nat := 64

def Expectation.message : Expectation → String
  | .filterOrOrder => "a condition or ORDER BY"
  | .operand => "an identifier or `(`"
  | .fewerGroups => "at most " ++ toString maxNesting ++ " nested groups"
  | .predicate => "a comparison operator, IN or NOT IN"
  | .inList => "IN"
  | .value => "a literal value"
  | .listOpening => "`(`"
  | .listSeparator => "`,` or `)`"
  | .groupClosing => "`)`"
  | .connective => "AND, OR, ORDER BY or end of input"
  | .byKeys => "BY"
  | .sortKey => "an identifier"
  | .sortSeparator => "`,`, ASC, DESC or end of input"

/-- The phrases that stand in front of an operand in its group: the conjunctions that are complete,
and the operands of the one that is not. -/
structure Frame where
  conjunctions : Option Disjunction
  operands : Option Conjunction

namespace Frame

def empty : Frame := ⟨none, none⟩

/-- The disjunction of a frame whose last conjunction is `c`. -/
def close (frame : Frame) (c : Conjunction) : Disjunction :=
  .push frame.conjunctions c

end Frame

/-- Where an operand is read: the frame of its group, and around it those of the groups that hold
it, from the inside out. -/
structure Site where
  frame : Frame
  outer : List Frame

namespace Site

def outermost : Site := ⟨.empty, []⟩

def depth (site : Site) : Nat :=
  site.outer.length

def enter (site : Site) : Site :=
  ⟨.empty, site.frame :: site.outer⟩

/-- The conjunction that ends with an operand read here. -/
def add (site : Site) (o : Operand) : Conjunction :=
  .push site.frame.operands o

def afterAnd (site : Site) (c : Conjunction) : Site :=
  ⟨⟨site.frame.conjunctions, some c⟩, site.outer⟩

def afterOr (site : Site) (c : Conjunction) : Site :=
  ⟨⟨some (site.frame.close c), none⟩, site.outer⟩

end Site

/-- A sentence that is not complete, named for what may come next. -/
inductive Stage where
  | start
  | operand (site : Site)
  | predicate (site : Site) (identifier : String)
  | inList (site : Site) (identifier : String)
  | value (site : Site) (identifier : String) (op : Comparison)
  | list (site : Site) (identifier : String) (negated : Bool)
  | element (site : Site) (identifier : String) (negated : Bool) (values : Option (Run Literal))
  | separator (site : Site) (identifier : String) (negated : Bool) (values : Run Literal)
  | connective (site : Site) (c : Conjunction)
  | byKeys (filter : Option Disjunction)
  | sortKey (filter : Option Disjunction) (terms : Option (Run SortTerm))
  | sortEnd (filter : Option Disjunction) (terms : Option (Run SortTerm)) (last : SortTerm)

namespace Stage

def behind (site : Site) (o : Operand) : Stage :=
  .connective site (site.add o)

/-- What a stage is waiting for, other than the end of the input. -/
def expected : Stage → Expectation
  | .start => .operand
  | .operand _ => .operand
  | .predicate .. => .predicate
  | .inList .. => .inList
  | .value .. => .value
  | .list .. => .listOpening
  | .element .. => .value
  | .separator .. => .listSeparator
  | .connective site _ => if site.outer = [] then .connective else .groupClosing
  | .byKeys _ => .byKeys
  | .sortKey .. => .sortKey
  | .sortEnd .. => .sortSeparator

def openGroup (site : Site) : Except Expectation Stage :=
  if site.depth = maxNesting then .error .fewerGroups else .ok (.operand site.enter)

def step : Stage → Token → Except Expectation Stage
  | .start, .keyword .order => .ok (.byKeys none)
  | .start, .identifier name => .ok (.predicate .outermost name)
  | .start, .openParen => openGroup .outermost
  | .operand site, .identifier name => .ok (.predicate site name)
  | .operand site, .openParen => openGroup site
  | .predicate site name, .comparison op => .ok (.value site name op)
  | .predicate site name, .keyword .not => .ok (.inList site name)
  | .predicate site name, .keyword .inList => .ok (.list site name false)
  | .inList site name, .keyword .inList => .ok (.list site name true)
  | .value site name op, .literal v => .ok (behind site (.test (.compare name op v)))
  | .list site name negated, .openParen => .ok (.element site name negated none)
  | .element site name negated values, .literal v =>
    .ok (.separator site name negated (.push values v))
  | .separator site name negated values, .comma => .ok (.element site name negated (some values))
  | .separator site name negated values, .closeParen =>
    .ok (behind site (.test (.member name negated values)))
  | .connective site c, .keyword .and => .ok (.operand (site.afterAnd c))
  | .connective site c, .keyword .or => .ok (.operand (site.afterOr c))
  | .connective ⟨inner, frame :: outer⟩ c, .closeParen =>
    .ok (behind ⟨frame, outer⟩ (.group (inner.close c)))
  | .connective ⟨frame, []⟩ c, .keyword .order => .ok (.byKeys (some (frame.close c)))
  | .byKeys filter, .keyword .byKeys => .ok (.sortKey filter none)
  | .sortKey filter terms, .identifier name => .ok (.sortEnd filter terms ⟨name, none⟩)
  | .sortEnd filter terms last, .comma => .ok (.sortKey filter (some (.push terms last)))
  | .sortEnd filter terms ⟨name, none⟩, .keyword .asc =>
    .ok (.sortEnd filter terms ⟨name, some .ascending⟩)
  | .sortEnd filter terms ⟨name, none⟩, .keyword .desc =>
    .ok (.sortEnd filter terms ⟨name, some .descending⟩)
  | stage, _ => .error stage.expected

/-- The sentence that a stage is at the end of the input. -/
def finish : Stage → Except Expectation Sentence
  | .start => .error .filterOrOrder
  | .connective ⟨frame, []⟩ c => .ok (.filter (frame.close c))
  | .sortEnd filter terms last => .ok (.ofOrder filter (.push terms last))
  | stage => .error stage.expected

end Stage

end FilterQuery
