import FilterQuery.Proofs.Meaning
import FilterQuery.Proofs.Regrouping
import FilterQuery.Proofs.Shapes

/-!
# Joining a tree again

A run may be cut anywhere and its pieces joined first (`join_pieces`): what joining does to a run
does not depend on whether its conditions are normal. To normalize a condition is to join it again
from its leaves up, and once is enough (`isNormal_iff_fixed`): the result is normal, what is normal
is its own result, and neither the leaves nor what the condition says of them change.
-/

namespace FilterQuery.Condition

/-- A run as one condition. An empty run, which `join` does not take, is a node without children. -/
def joinAll (c : Connective) : List Condition → Condition
  | [] => .node c []
  | first :: rest => join c first rest

mutual

/-- The condition with each of its nodes joined again, the inner ones first. -/
def normalize : Condition → Condition
  | .leaf l => .leaf l
  | .node c children => joinAll c (normalizeAll children)

def normalizeAll : List Condition → List Condition
  | [] => []
  | x :: xs => x.normalize :: normalizeAll xs

end

/-- Each node of the condition has a child. -/
def HasNoEmptyNode (x : Condition) : Prop :=
  ∀ c, ¬Within (.node c []) x

mutual

/-- The truth value of the condition if its leaves, from left to right, are as true as `values` says
of `n` and of the numbers that follow. Equal leaves in two places may differ in truth. -/
def truthFrom (values : Nat → Bool) (n : Nat) : Condition → Bool
  | .leaf _ => values n
  | .node c children => c.combine (truthsFrom values n children)

def truthsFrom (values : Nat → Bool) (n : Nat) : List Condition → List Bool
  | [] => []
  | x :: xs => x.truthFrom values n :: truthsFrom values (n + x.leaves.length) xs

end

/-- The truth value of the condition if its `n`-th leaf is as true as `values n`. -/
def truth (values : Nat → Bool) (x : Condition) : Bool :=
  x.truthFrom values 0

variable {c : Connective} {x : Condition} {xs : List Condition}

theorem joins_joinAll (h : xs ≠ []) : Joins c xs (joinAll c xs) := by
  obtain ⟨first, rest, rfl⟩ := List.exists_cons_of_ne_nil h
  exact joins_iff.2 rfl

theorem forall₂_joins {pieces : List (List Condition)} (hne : ∀ piece ∈ pieces, piece ≠ []) :
    List.Forall₂ (Joins c) pieces (pieces.map (joinAll c)) := by
  rw [List.forall₂_map_right_iff, List.forall₂_same]
  exact fun piece hp => joins_joinAll (hne piece hp)

/-- A run that is cut into pieces may be joined piece by piece. -/
theorem join_pieces {first : Condition} {rest : List Condition} {pieces : List (List Condition)}
    (hcut : pieces.flatten = first :: rest) (hne : ∀ piece ∈ pieces, piece ≠ []) :
    joinAll c (pieces.map (joinAll c)) = join c first rest := by
  have hmap : pieces.map (joinAll c) ≠ [] := by
    rintro h
    rw [List.map_eq_nil_iff.1 h] at hcut
    cases hcut
  -- what the results come to is also what the whole run comes to, and a run comes to one thing
  have hwhole := (Joins.regroup (forall₂_joins hne)).2 (joins_joinAll hmap)
  rw [hcut] at hwhole
  exact joins_iff.1 hwhole

/-- A node without children gives none, and an inner node is not opened, in either piece. -/
theorem join_pieces_of_three :
    let a : Condition := .leaf ⟨"a", .compare .equal (.int 1)⟩
    let b : Condition := .leaf ⟨"b", .member true [.null]⟩
    joinAll .and ([[.node .and []], [.node .or [a], .node .and [a, .node .and [b]]]].map
        (joinAll .and)) =
      join .and (.node .and []) [.node .or [a], .node .and [a, .node .and [b]]] ∧
    join .and (.node .and []) [.node .or [a], .node .and [a, .node .and [b]]] =
      .node .and [.node .or [a], a, .node .and [b]] :=
  ⟨join_pieces rfl (by simp), rfl⟩

theorem leaves_joinAll (c : Connective) (xs : List Condition) :
    (joinAll c xs).leaves = xs.flatMap leaves := by
  cases xs with
  | nil => rfl
  | cons first rest => exact (joins_joinAll (List.cons_ne_nil first rest)).leaves_eq

/-- A run of which no condition gives its place to its children is a node as it stands. -/
theorem joinAll_eq_node (hl : 2 ≤ xs.length) (hx : ∀ x ∈ xs, x.connective? ≠ some c) :
    joinAll c xs = .node c xs := by
  have hne : xs ≠ [] := by
    rintro rfl
    simp at hl
  have hjoins : Joins c xs (joinAll c xs) := joins_joinAll hne
  rw [(joins_iff_node hl).1 hjoins, flatMap_splice_eq_self hx]

theorem truthsFrom_append (values : Nat → Bool) (n : Nat) : ∀ xs ys : List Condition,
    truthsFrom values n (xs ++ ys) =
      truthsFrom values n xs ++ truthsFrom values (n + (leavesOfAll xs).length) ys
  | [], ys => rfl
  | x :: xs, ys => by
    rw [List.cons_append, truthsFrom, truthsFrom_append values _ xs ys, truthsFrom, leavesOfAll,
      List.length_append, Nat.add_assoc, List.cons_append]

theorem truthsFrom_map {f : Condition → Condition} {values : Nat → Bool}
    (hl : ∀ x ∈ xs, (f x).leaves = x.leaves)
    (ht : ∀ x ∈ xs, ∀ n, (f x).truthFrom values n = x.truthFrom values n) :
    ∀ n, truthsFrom values n (xs.map f) = truthsFrom values n xs := by
  induction xs with
  | nil => exact fun n => rfl
  | cons x xs ih =>
    intro n
    obtain ⟨hlx, hlxs⟩ := List.forall_mem_cons.1 hl
    obtain ⟨htx, htxs⟩ := List.forall_mem_cons.1 ht
    rw [List.map_cons, truthsFrom, truthsFrom, htx, hlx, ih hlxs htxs]

theorem truthsFrom_singleton (values : Nat → Bool) (n : Nat) (x : Condition) :
    truthsFrom values n [x] = [x.truthFrom values n] := rfl

theorem combine_truthsFrom_splice (values : Nat → Bool) (n : Nat) (c : Connective)
    (x : Condition) : c.combine (truthsFrom values n (splice c x)) = x.truthFrom values n := by
  rcases splice_cases c x with ⟨children, rfl, hs⟩ | ⟨-, hs⟩ <;> rw [hs]
  · rfl
  · rw [truthsFrom_singleton, Connective.combine_singleton]

/-- Children that stand in the place of their node say together what the node says. -/
theorem combine_truthsFrom_flatMap (values : Nat → Bool) (c : Connective) :
    ∀ (xs : List Condition) (n : Nat), c.combine (truthsFrom values n (xs.flatMap (splice c))) =
      c.combine (truthsFrom values n xs)
  | [], n => rfl
  | x :: xs, n => by
    have hleaves : leavesOfAll (splice c x) = x.leaves := by
      rw [leavesOfAll_eq_flatMap, Joins.leaves_splice]
    rw [List.flatMap_cons, truthsFrom_append, hleaves, Connective.combine_append,
      combine_truthsFrom_splice, combine_truthsFrom_flatMap values c xs, truthsFrom,
      ← Connective.combine_cons]

theorem truthFrom_joinAll (values : Nat → Bool) (n : Nat) (c : Connective)
    (xs : List Condition) :
    (joinAll c xs).truthFrom values n = c.combine (truthsFrom values n xs) := by
  match xs with
  | [] => rfl
  | [x] => rw [truthsFrom_singleton, Connective.combine_singleton, joinAll, join]
  | first :: second :: rest => rw [joinAll, join, truthFrom, combine_truthsFrom_flatMap]

section Values

variable {V : Type} {m : Interpretation V} {env : String → V} {values : Nat → Bool}

mutual

theorem truthFrom_eq_holds : ∀ (x : Condition) (n : Nat),
    (∀ i l, x.leaves[i]? = some l → values (n + i) = l.holds m env) →
      x.truthFrom values n = x.holds m env
  | .leaf l, n, h => h 0 l rfl
  | .node c xs, n, h => by rw [truthFrom, holds, truthsFrom_eq_holds xs n h]

theorem truthsFrom_eq_holds : ∀ (xs : List Condition) (n : Nat),
    (∀ i l, (leavesOfAll xs)[i]? = some l → values (n + i) = l.holds m env) →
      truthsFrom values n xs = holdsOfAll m env xs
  | [], _, _ => rfl
  | x :: xs, n, h => by
    have hx : x.truthFrom values n = x.holds m env := by
      refine truthFrom_eq_holds x n fun i l hi => h i l ?_
      rw [leavesOfAll, List.getElem?_append_left (List.getElem?_eq_some_iff.1 hi).1, hi]
    -- the numbers of the other conditions begin behind the leaves of the first one
    have hxs : truthsFrom values (n + x.leaves.length) xs = holdsOfAll m env xs := by
      refine truthsFrom_eq_holds xs _ fun i l hi => ?_
      rw [Nat.add_assoc]
      refine h (x.leaves.length + i) l ?_
      rw [leavesOfAll, List.getElem?_append_right (Nat.le_add_right _ _), Nat.add_sub_cancel_left,
        hi]
    rw [truthsFrom, holdsOfAll, hx, hxs]

end

/-- What a condition says of its identifiers is its truth value when each leaf is as true as what it
says of its own. -/
theorem holds_eq_truth (x : Condition) :
    x.holds m env = x.truth fun n => (x.leaves[n]?).any (Leaf.holds m env) := by
  refine (truthFrom_eq_holds x 0 fun n l hl => ?_).symm
  simp only [Nat.zero_add, hl, Option.any_some]

end Values

theorem hasNoEmptyNode_leaf (l : Leaf) : HasNoEmptyNode (.leaf l) :=
  fun _ h => nomatch h

theorem hasNoEmptyNode_node :
    HasNoEmptyNode (.node c xs) ↔ xs ≠ [] ∧ ∀ x ∈ xs, x.HasNoEmptyNode := by
  refine ⟨fun h => ⟨?_, fun x hx d hd => h d (.child hx hd)⟩, fun ⟨hne, hxs⟩ d hd => ?_⟩
  · rintro rfl
    exact h c .root
  · rcases hd with _ | ⟨hy, hd⟩
    · exact hne rfl
    · exact hxs _ hy d hd

theorem normalizeAll_eq_map : ∀ xs : List Condition, normalizeAll xs = xs.map normalize
  | [] => rfl
  | x :: xs => by rw [normalizeAll, normalizeAll_eq_map xs, List.map_cons]

theorem normalize_node (c : Connective) (xs : List Condition) :
    normalize (.node c xs) = joinAll c (xs.map normalize) := by
  rw [normalize, normalizeAll_eq_map]

theorem isNormal_normalize (h : x.HasNoEmptyNode) : x.normalize.isNormal = true := by
  induction x using Condition.induction with
  | leaf l => rfl
  | node c xs ih =>
    obtain ⟨hne, hxs⟩ := hasNoEmptyNode_node.1 h
    rw [normalize_node]
    refine (joins_joinAll (by simpa using hne)).isNormal (List.forall_mem_map.2 fun x hx => ?_)
    exact ih x hx (hxs x hx)

theorem normalize_of_isNormal (h : x.isNormal = true) : x.normalize = x := by
  induction x using Condition.induction with
  | leaf l => rfl
  | node c xs ih =>
    obtain ⟨hl, hxs⟩ := isNormal_node.1 h
    have hmap : xs.map normalize = xs :=
      (List.map_congr_left fun x hx => ih x hx (hxs x hx).2).trans (List.map_id xs)
    rw [normalize_node, hmap]
    exact joinAll_eq_node hl fun x hx => (hxs x hx).1

theorem leaves_normalize (x : Condition) : x.normalize.leaves = x.leaves := by
  induction x using Condition.induction with
  | leaf l => rfl
  | node c xs ih =>
    rw [normalize_node, leaves_joinAll, leaves, leavesOfAll_eq_flatMap, List.flatMap_map]
    exact List.flatMap_congr ih

theorem truthFrom_normalize (values : Nat → Bool) (x : Condition) (n : Nat) :
    x.normalize.truthFrom values n = x.truthFrom values n := by
  induction x using Condition.induction generalizing n with
  | leaf l => rfl
  | node c xs ih =>
    rw [normalize_node, truthFrom_joinAll, truthFrom,
      truthsFrom_map (fun x _ => leaves_normalize x) ih]

theorem holds_normalize {V : Type} (m : Interpretation V) (env : String → V) (x : Condition) :
    x.normalize.holds m env = x.holds m env := by
  rw [holds_eq_truth, holds_eq_truth, leaves_normalize]
  exact truthFrom_normalize _ x 0

/-- The normal conditions are those that joining again leaves as they are. Each condition without
empty nodes comes to such a one in one go, and keeps its leaves, their order, and its truth value
for all truth values of these. -/
theorem isNormal_iff_fixed (h : x.HasNoEmptyNode) :
    x.normalize.isNormal = true ∧ (x.isNormal = true ↔ x.normalize = x) ∧
      x.normalize.normalize = x.normalize ∧ x.normalize.leaves = x.leaves ∧
        ∀ values, x.normalize.truth values = x.truth values := by
  have hnormal := isNormal_normalize h
  refine ⟨hnormal, ⟨normalize_of_isNormal, fun hx => ?_⟩, normalize_of_isNormal hnormal,
    leaves_normalize x, fun values => truthFrom_normalize values x 0⟩
  rwa [hx] at hnormal

/-- Joined again, a chain of nodes with one child each is the leaf at its end, also where the node
above it has the connective of one in the chain. The leaf `a` stands in three places. -/
theorem isNormal_iff_fixed_of_chain :
    let a : Condition := .leaf ⟨"a", .compare .equal (.int 1)⟩
    let b : Condition := .leaf ⟨"b", .member true [.null]⟩
    let x : Condition :=
      .node .and [.node .or [.node .and [a]], .node .and [a, .node .or [a, .node .or [b, a]]]]
    x.HasNoEmptyNode ∧ x.normalize = .node .and [a, a, .node .or [a, b, a]] ∧
      x.normalize.isNormal = true ∧ (x.isNormal = true ↔ x.normalize = x) ∧
      x.normalize.normalize = x.normalize ∧ x.normalize.leaves = x.leaves ∧
      ∀ values, x.normalize.truth values = x.truth values := by
  intro a b x
  have h : x.HasNoEmptyNode := by
    simp [x, a, b, hasNoEmptyNode_node, hasNoEmptyNode_leaf]
  exact ⟨h, rfl, isNormal_iff_fixed h⟩

end FilterQuery.Condition
