import FilterQuery.Proofs.Trees
import FilterQuery.Sentence.Basic
import Mathlib.Data.List.Forall2

/-!
# What a sentence asks for, rule by rule

The rules that lead from a sentence to its query. A group is what stands in it. A run of one
condition is that condition, and a longer run is a node whose children come in the order of the run,
a node of the same connective giving its children in its own place. A direction that is not written
is ascending. The rules leave no choice: each sentence denotes its query and nothing else
(`Sentence.denotes_iff`).
-/

namespace FilterQuery

namespace Condition

/-- In a node of a connective, a node of that connective gives its children, and any other
condition itself. -/
inductive Gives (c : Connective) : Condition → List Condition → Prop
  | children (xs : List Condition) : Gives c (.node c xs) xs
  | itself {x : Condition} (h : x.connective? ≠ some c) : Gives c x [x]

/-- A run of one condition is that condition, a longer one a node of what its conditions give. -/
inductive Joins (c : Connective) : List Condition → Condition → Prop
  | one (x : Condition) : Joins c [x] x
  | more {xs : List Condition} {parts : List (List Condition)} (hl : 2 ≤ xs.length)
    (hp : List.Forall₂ (Gives c) xs parts) : Joins c xs (.node c parts.flatten)

theorem gives_iff {c : Connective} {x : Condition} {xs : List Condition} :
    Gives c x xs ↔ xs = splice c x := by
  refine ⟨fun h => ?_, fun h => ?_⟩
  · rcases h with _ | h
    · simp [splice]
    · exact (splice_eq_self h).symm
  · subst h
    rcases splice_cases c x with ⟨ys, rfl, hs⟩ | ⟨hn, hs⟩
    · rw [hs]
      exact .children ys
    · rw [hs]
      exact .itself hn

theorem forall₂_iff_eq_map {α β : Type} {R : α → β → Prop} {f : α → β}
    (h : ∀ x y, R x y ↔ y = f x) (xs : List α) (ys : List β) :
    List.Forall₂ R xs ys ↔ ys = xs.map f := by
  have hR : R = fun x y => f x = y := by
    funext x y
    exact propext ((h x y).trans eq_comm)
  rw [hR, ← List.forall₂_map_left_iff, List.forall₂_eq_eq_eq, eq_comm]

theorem joins_iff {c : Connective} {x y : Condition} {xs : List Condition} :
    Joins c (x :: xs) y ↔ y = join c x xs := by
  have hparts := forall₂_iff_eq_map (R := Gives c) (f := splice c) fun _ _ => gives_iff
  cases xs with
  | nil =>
    refine ⟨fun h => ?_, fun h => ?_⟩
    · rcases h with _ | ⟨hl, -⟩
      · rfl
      · simp at hl
    · subst h
      exact .one _
  | cons second rest =>
    refine ⟨fun h => ?_, fun h => ?_⟩
    · rcases h with _ | ⟨-, hp⟩
      rw [(hparts _ _).1 hp]
      simp [join, List.flatMap_def]
    · subst h
      rw [join, List.flatMap_def]
      exact .more (by simp) ((hparts _ _).2 rfl)

end Condition

/-- A test is the leaf of its identifier, its operator and its literals. -/
inductive Test.Denotes : Test → Leaf → Prop
  | compare (name : String) (op : Comparison) (v : Literal) :
    Denotes (.compare name op v) ⟨name, .compare op v⟩
  | member (name : String) (negated : Bool) (values : Run Literal) :
    Denotes (.member name negated values) ⟨name, .member negated values.toList⟩

mutual

/-- The conditions that a disjunction joins, in order. -/
inductive Disjunction.Parts : Disjunction → List Condition → Prop
  | one {c : Conjunction} {x : Condition} : Conjunction.Denotes c x → Disjunction.Parts (.one c) [x]
  | more {d : Disjunction} {c : Conjunction} {xs : List Condition} {x : Condition} :
    Disjunction.Parts d xs → Conjunction.Denotes c x → Disjunction.Parts (.more d c) (xs ++ [x])

/-- The conditions that a conjunction joins, in order. -/
inductive Conjunction.Parts : Conjunction → List Condition → Prop
  | one {o : Operand} {x : Condition} : Operand.Denotes o x → Conjunction.Parts (.one o) [x]
  | more {c : Conjunction} {o : Operand} {xs : List Condition} {x : Condition} :
    Conjunction.Parts c xs → Operand.Denotes o x → Conjunction.Parts (.more c o) (xs ++ [x])

/-- A disjunction is its conjunctions joined by OR. -/
inductive Disjunction.Denotes : Disjunction → Condition → Prop
  | joined {d : Disjunction} {xs : List Condition} {y : Condition} :
    Disjunction.Parts d xs → Condition.Joins .or xs y → Disjunction.Denotes d y

/-- A conjunction is its operands joined by AND. -/
inductive Conjunction.Denotes : Conjunction → Condition → Prop
  | joined {c : Conjunction} {xs : List Condition} {y : Condition} :
    Conjunction.Parts c xs → Condition.Joins .and xs y → Conjunction.Denotes c y

/-- A test is a leaf, and a group is what stands in it. -/
inductive Operand.Denotes : Operand → Condition → Prop
  | test {t : Test} {l : Leaf} : t.Denotes l → Operand.Denotes (.test t) (.leaf l)
  | group {d : Disjunction} {x : Condition} : Disjunction.Denotes d x → Operand.Denotes (.group d) x

end

/-- A direction that is not written is ascending. -/
inductive SortTerm.Denotes : SortTerm → SortItem → Prop
  | written (name : String) (direction : Direction) :
    Denotes ⟨name, some direction⟩ ⟨name, direction⟩
  | unwritten (name : String) : Denotes ⟨name, none⟩ ⟨name, .ascending⟩

/-- A sentence filters by its disjunction and sorts by its terms in order; a part that is not
written is absent. -/
inductive Sentence.Denotes : Sentence → Query → Prop
  | filter {d : Disjunction} {x : Condition} : d.Denotes x → Denotes (.filter d) ⟨some x, none⟩
  | order {terms : Run SortTerm} {items : List SortItem} :
    List.Forall₂ SortTerm.Denotes terms.toList items → Denotes (.order terms) ⟨none, some items⟩
  | both {d : Disjunction} {terms : Run SortTerm} {x : Condition} {items : List SortItem} :
    d.Denotes x → List.Forall₂ SortTerm.Denotes terms.toList items →
      Denotes (.both d terms) ⟨some x, some items⟩

theorem Test.denotes_iff (t : Test) (l : Leaf) : t.Denotes l ↔ l = t.leaf := by
  refine ⟨fun h => ?_, fun h => ?_⟩
  · rcases h with _ | _ <;> rfl
  · subst h
    cases t
    · exact .compare _ _ _
    · exact .member _ _ _

theorem Disjunction.denotes_of_parts {d : Disjunction}
    (h : ∀ xs, d.Parts xs ↔ xs = d.conditions.1 :: d.conditions.2) (x : Condition) :
    d.Denotes x ↔ x = d.condition := by
  refine ⟨fun hx => ?_, fun hx => ?_⟩
  · obtain ⟨hp, hj⟩ := hx
    rw [(h _).1 hp] at hj
    exact Condition.joins_iff.1 hj
  · subst hx
    exact .joined ((h _).2 rfl) (Condition.joins_iff.2 rfl)

theorem Conjunction.denotes_of_parts {c : Conjunction}
    (h : ∀ xs, c.Parts xs ↔ xs = c.conditions.1 :: c.conditions.2) (x : Condition) :
    c.Denotes x ↔ x = c.condition := by
  refine ⟨fun hx => ?_, fun hx => ?_⟩
  · obtain ⟨hp, hj⟩ := hx
    rw [(h _).1 hp] at hj
    exact Condition.joins_iff.1 hj
  · subst hx
    exact .joined ((h _).2 rfl) (Condition.joins_iff.2 rfl)

mutual

theorem Disjunction.parts_iff : ∀ (d : Disjunction) (xs : List Condition),
    d.Parts xs ↔ xs = d.conditions.1 :: d.conditions.2
  | .one c, xs => by
    have hc := Conjunction.denotes_of_parts (Conjunction.parts_iff c)
    refine ⟨fun h => ?_, fun h => ?_⟩
    · rcases h with ⟨h⟩ | _
      rw [(hc _).1 h]
      rfl
    · subst h
      exact .one ((hc _).2 rfl)
  | .more d c, xs => by
    have hc := Conjunction.denotes_of_parts (Conjunction.parts_iff c)
    refine ⟨fun h => ?_, fun h => ?_⟩
    · rcases h with _ | ⟨hd, h⟩
      rw [(Disjunction.parts_iff d _).1 hd, (hc _).1 h]
      rfl
    · subst h
      exact .more ((Disjunction.parts_iff d _).2 rfl) ((hc _).2 rfl)

theorem Conjunction.parts_iff : ∀ (c : Conjunction) (xs : List Condition),
    c.Parts xs ↔ xs = c.conditions.1 :: c.conditions.2
  | .one o, xs => by
    refine ⟨fun h => ?_, fun h => ?_⟩
    · rcases h with ⟨h⟩ | _
      rw [(Operand.denotes_iff o _).1 h]
      rfl
    · subst h
      exact .one ((Operand.denotes_iff o _).2 rfl)
  | .more c o, xs => by
    refine ⟨fun h => ?_, fun h => ?_⟩
    · rcases h with _ | ⟨hc, h⟩
      rw [(Conjunction.parts_iff c _).1 hc, (Operand.denotes_iff o _).1 h]
      rfl
    · subst h
      exact .more ((Conjunction.parts_iff c _).2 rfl) ((Operand.denotes_iff o _).2 rfl)

theorem Operand.denotes_iff : ∀ (o : Operand) (x : Condition), o.Denotes x ↔ x = o.condition
  | .test t, x => by
    refine ⟨fun h => ?_, fun h => ?_⟩
    · obtain ⟨h⟩ := h
      rw [(t.denotes_iff _).1 h]
      rfl
    · subst h
      exact .test ((t.denotes_iff _).2 rfl)
  | .group d, x => by
    have hd := Disjunction.denotes_of_parts (Disjunction.parts_iff d)
    refine ⟨fun h => ?_, fun h => ?_⟩
    · rcases h with _ | ⟨h⟩
      exact (hd _).1 h
    · subst h
      exact .group ((hd _).2 rfl)

end

theorem Disjunction.denotes_iff (d : Disjunction) (x : Condition) :
    d.Denotes x ↔ x = d.condition :=
  Disjunction.denotes_of_parts d.parts_iff x

theorem SortTerm.denotes_iff (t : SortTerm) (item : SortItem) :
    t.Denotes item ↔ item = t.item := by
  refine ⟨fun h => ?_, fun h => ?_⟩
  · rcases h with _ | _ <;> rfl
  · subst h
    obtain ⟨name, _ | direction⟩ := t
    · exact .unwritten name
    · exact .written name direction

/-- A sentence denotes its query and nothing else. -/
theorem Sentence.denotes_iff (s : Sentence) (q : Query) : s.Denotes q ↔ q = s.query := by
  have hterms := fun terms : Run SortTerm =>
    Condition.forall₂_iff_eq_map SortTerm.denotes_iff terms.toList
  refine ⟨fun h => ?_, fun h => ?_⟩
  · rcases h with ⟨hd⟩ | ⟨ht⟩ | ⟨hd, ht⟩
    · rw [(Disjunction.denotes_iff _ _).1 hd]
      rfl
    · rw [(hterms _ _).1 ht]
      rfl
    · rw [(Disjunction.denotes_iff _ _).1 hd, (hterms _ _).1 ht]
      rfl
  · subst h
    cases s with
    | filter d => exact .filter ((d.denotes_iff _).2 rfl)
    | order terms => exact .order ((hterms _ _).2 rfl)
    | both d terms => exact .both ((d.denotes_iff _).2 rfl) ((hterms _ _).2 rfl)

end FilterQuery
