import FilterQuery.Json.Basic
import FilterQuery.Proofs.Trees
import FilterQuery.Sentence.Basic

/-!
# What a sentence says

With a value for each identifier and a meaning for each operator, a sentence is true or false, and
so is a condition. A group is as true as what stands in it, so nothing changes when groups are left
out and runs are joined: a disjunction is as true as its condition (`Disjunction.holds_condition`).
-/

namespace FilterQuery

/-- What the operators say of a value and the JSON form of a literal, or of several. -/
structure Interpretation (V : Type) where
  compare : Comparison → V → Json → Bool
  isIn : V → List Json → Bool
  isNotIn : V → List Json → Bool

/-- All of the truth values, or at least one. -/
def Connective.combine : Connective → List Bool → Bool
  | .and, bs => bs.all id
  | .or, bs => bs.any id

section Holds

variable {V : Type} (m : Interpretation V) (env : String → V)

def Test.holds : Test → Bool
  | .compare name op v => m.compare op (env name) v.toJson
  | .member name false values => m.isIn (env name) (values.toList.map Literal.toJson)
  | .member name true values => m.isNotIn (env name) (values.toList.map Literal.toJson)

mutual

/-- The truth value of conjunctions joined by OR. -/
def Disjunction.holds : Disjunction → Bool
  | .one first => first.holds
  | .more init last => init.holds || last.holds

/-- The truth value of operands joined by AND. -/
def Conjunction.holds : Conjunction → Bool
  | .one first => first.holds
  | .more init last => init.holds && last.holds

/-- The truth value of a test, or of what stands in a group. -/
def Operand.holds : Operand → Bool
  | .test t => t.holds m env
  | .group d => d.holds

end

def Leaf.holds (l : Leaf) : Bool :=
  match l.predicate with
  | .compare op v => m.compare op (env l.identifier) v.toJson
  | .member false values => m.isIn (env l.identifier) (values.map Literal.toJson)
  | .member true values => m.isNotIn (env l.identifier) (values.map Literal.toJson)

mutual

def Condition.holds : Condition → Bool
  | .leaf l => l.holds m env
  | .node c children => c.combine (Condition.holdsOfAll children)

def Condition.holdsOfAll : List Condition → List Bool
  | [] => []
  | x :: xs => x.holds :: Condition.holdsOfAll xs

end

theorem Condition.holdsOfAll_eq_map : ∀ xs : List Condition,
    holdsOfAll m env xs = xs.map (holds m env)
  | [] => rfl
  | x :: xs => by rw [holdsOfAll, holdsOfAll_eq_map xs, List.map_cons]

end Holds

namespace Connective

theorem combine_singleton (c : Connective) (b : Bool) : c.combine [b] = b := by
  cases c <;> simp [combine]

theorem combine_cons (c : Connective) (b : Bool) (bs : List Bool) :
    c.combine (b :: bs) = c.combine [b, c.combine bs] := by
  cases c <;> simp [combine]

theorem combine_append (c : Connective) (bs ds : List Bool) :
    c.combine (bs ++ ds) = c.combine [c.combine bs, c.combine ds] := by
  cases c <;> simp [combine]

theorem combine_flatMap (c : Connective) {α : Type} (f : α → List Bool) (xs : List α) :
    c.combine (xs.flatMap f) = c.combine (xs.map fun x => c.combine (f x)) := by
  cases c <;> simp [combine, List.all_flatMap, List.any_flatMap]

end Connective

variable {V : Type} {m : Interpretation V} {env : String → V}

namespace Condition

theorem combine_splice (c : Connective) (x : Condition) :
    c.combine ((splice c x).map (holds m env)) = x.holds m env := by
  rcases splice_cases c x with ⟨xs, rfl, hs⟩ | ⟨-, hs⟩
  · rw [hs, holds, holdsOfAll_eq_map]
  · rw [hs, List.map_singleton, Connective.combine_singleton]

/-- A run that is joined is as true as its conditions together. -/
theorem holds_join (c : Connective) (x : Condition) (xs : List Condition) :
    (join c x xs).holds m env = c.combine ((x :: xs).map (holds m env)) := by
  cases xs with
  | nil => exact (c.combine_singleton _).symm
  | cons y ys =>
    rw [join, holds, holdsOfAll_eq_map, List.map_flatMap, Connective.combine_flatMap]
    simp only [combine_splice]

end Condition

theorem Test.holds_leaf : ∀ t : Test, t.leaf.holds m env = t.holds m env
  | .compare .. => rfl
  | .member _ false _ => rfl
  | .member _ true _ => rfl

mutual

theorem Disjunction.combine_conditions : ∀ d : Disjunction,
    Connective.combine .or ((d.conditions.1 :: d.conditions.2).map (Condition.holds m env)) =
      d.holds m env
  | .one c => by
    simp only [Disjunction.conditions, List.map_cons, List.map_nil, Connective.combine_singleton,
      Condition.holds_join]
    exact c.combine_conditions
  | .more d c => by
    have hd := d.combine_conditions
    have hc := c.combine_conditions
    rw [← Condition.holds_join] at hc
    simp only [Connective.combine] at hd ⊢
    rw [Disjunction.conditions, ← List.cons_append, List.map_append, List.any_append, hd,
      List.map_singleton, hc]
    simp [Disjunction.holds]

theorem Conjunction.combine_conditions : ∀ c : Conjunction,
    Connective.combine .and ((c.conditions.1 :: c.conditions.2).map (Condition.holds m env)) =
      c.holds m env
  | .one o => by
    simp only [Conjunction.conditions, List.map_cons, List.map_nil, Connective.combine_singleton]
    exact o.holds_condition
  | .more c o => by
    have hc := c.combine_conditions
    simp only [Connective.combine] at hc ⊢
    rw [Conjunction.conditions, ← List.cons_append, List.map_append, List.all_append, hc,
      List.map_singleton, o.holds_condition]
    simp [Conjunction.holds]

theorem Operand.holds_condition : ∀ o : Operand, o.condition.holds m env = o.holds m env
  | .test t => t.holds_leaf
  | .group d => by
    rw [Operand.condition, Condition.holds_join]
    exact d.combine_conditions

end

theorem Disjunction.holds_condition (d : Disjunction) :
    d.condition.holds m env = d.holds m env := by
  rw [condition, Condition.holds_join, d.combine_conditions]

end FilterQuery
