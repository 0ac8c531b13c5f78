import FilterQuery.Proofs.Denotation

/-!
# Joining piece by piece

A run can be joined at once or piece by piece: what its pieces come to, joined in turn, is what the
whole run comes to (`Joins.regroup`). A piece of one condition is that condition, and a longer one
is a node that gives its children back, so no grouping of a run shows in the end. Joining keeps the
leaves of a run in order and what is normal normal.
-/

namespace FilterQuery.Condition

variable {c : Connective} {xs ys : List Condition} {x y : Condition}
  {pieces : List (List Condition)}

theorem joins_iff_or : Joins c xs y ↔
    xs = [y] ∨ 2 ≤ xs.length ∧ y = .node c (xs.flatMap (splice c)) := by
  cases xs with
  | nil =>
    refine ⟨fun h => ?_, fun h => by simp at h⟩
    rcases h with _ | ⟨hl, -⟩
    simp at hl
  | cons first rest =>
    rw [joins_iff]
    cases rest with
    | nil => simp [join, eq_comm]
    | cons second rest => simp [join]

theorem joins_iff_node (hl : 2 ≤ xs.length) :
    Joins c xs y ↔ y = .node c (xs.flatMap (splice c)) := by
  rw [joins_iff_or]
  refine ⟨fun h => ?_, fun h => .inr ⟨hl, h⟩⟩
  rcases h with rfl | ⟨-, h⟩
  · simp at hl
  · exact h

namespace Joins

theorem ne_nil (h : Joins c xs y) : xs ≠ [] := by
  rintro rfl
  rcases joins_iff_or.1 h with h | ⟨h, -⟩ <;> simp at h

/-- A run comes to one condition. -/
theorem eq (hx : Joins c xs x) (hy : Joins c xs y) : x = y := by
  obtain ⟨first, rest, rfl⟩ := List.exists_cons_of_ne_nil hx.ne_nil
  rw [joins_iff.1 hx, joins_iff.1 hy]

/-- In a longer run, what a piece comes to gives what the piece gives. -/
theorem splice_eq (h : Joins c xs y) : splice c y = xs.flatMap (splice c) := by
  rcases joins_iff_or.1 h with rfl | ⟨-, rfl⟩
  · rw [List.flatMap_singleton]
  · exact if_pos rfl

theorem flatMap_splice (h : List.Forall₂ (Joins c) pieces xs) :
    pieces.flatten.flatMap (splice c) = xs.flatMap (splice c) := by
  induction h with
  | nil => rfl
  | cons hp _ ih => rw [List.flatten_cons, List.flatMap_append, List.flatMap_cons, hp.splice_eq, ih]

theorem length_le_flatten (h : List.Forall₂ (Joins c) pieces xs) :
    xs.length ≤ pieces.flatten.length := by
  induction h with
  | nil => exact Nat.le_refl 0
  | cons hp _ ih =>
    have hpos := List.length_pos_iff.2 hp.ne_nil
    rw [List.flatten_cons, List.length_append, List.length_cons]
    omega

/-- It makes no difference whether the pieces of a run are joined first. -/
theorem regroup (h : List.Forall₂ (Joins c) pieces xs) :
    Joins c pieces.flatten y ↔ Joins c xs y := by
  by_cases hl : 2 ≤ xs.length
  · rw [joins_iff_node (Nat.le_trans hl (length_le_flatten h)), joins_iff_node hl, flatMap_splice h]
  rcases h with _ | @⟨piece, x, _, _, hp, _ | _⟩
  · rfl
  · -- one piece is what it comes to
    rw [List.flatten_singleton]
    refine ⟨fun hy => ?_, fun hy => ?_⟩
    · rw [hy.eq hp]
      exact .one x
    · rwa [hy.eq (.one x)]
  · simp at hl

/-- It makes no difference whether a stretch of a run is joined first. -/
theorem stretch {front back : List Condition} (h : Joins c ys x) :
    Joins c (front ++ x :: back) y ↔ Joins c (front ++ ys ++ back) y := by
  have hsingle : ∀ zs : List Condition, List.Forall₂ (Joins c) (zs.map fun z => [z]) zs := by
    intro zs
    induction zs with
    | nil => exact .nil
    | cons z zs ih => exact .cons (.one z) ih
  have hflatten : ∀ zs : List Condition, (zs.map fun z => [z]).flatten = zs := fun zs => by
    rw [← List.flatMap_def, List.flatMap_singleton']
  have hpieces := List.rel_append (hsingle front) (List.Forall₂.cons h (hsingle back))
  rw [← regroup hpieces]
  simp only [List.flatten_append, List.flatten_cons, hflatten, List.append_assoc]

theorem leaves_splice (c : Connective) (x : Condition) :
    (splice c x).flatMap leaves = x.leaves := by
  rcases splice_cases c x with ⟨xs, rfl, hs⟩ | ⟨-, hs⟩ <;> rw [hs]
  · rw [leaves, leavesOfAll_eq_flatMap]
  · rw [List.flatMap_singleton]

theorem leaves_eq (h : Joins c xs y) : y.leaves = xs.flatMap leaves := by
  rcases joins_iff_or.1 h with rfl | ⟨-, rfl⟩
  · rw [List.flatMap_singleton]
  · rw [leaves, leavesOfAll_eq_flatMap, List.flatMap_assoc]
    simp only [leaves_splice]

theorem isNormal (h : Joins c xs y) (hx : ∀ x ∈ xs, x.isNormal = true) : y.isNormal = true := by
  rcases joins_iff_or.1 h with rfl | ⟨hl, rfl⟩
  · exact hx y (List.mem_singleton_self y)
  have hgives : ∀ x ∈ xs, 1 ≤ (splice c x).length ∧
      ∀ z ∈ splice c x, z.connective? ≠ some c ∧ z.isNormal = true := by
    intro x hm
    rcases splice_cases c x with ⟨children, rfl, hs⟩ | ⟨hc, hs⟩ <;> rw [hs]
    · obtain ⟨hlength, hall⟩ := isNormal_node.1 (hx _ hm)
      exact ⟨by omega, hall⟩
    · simpa using ⟨hc, hx x hm⟩
  refine isNormal_node.2 ⟨?_, fun z hz => ?_⟩
  · match xs, hl with
    | first :: second :: rest, _ =>
      have hfirst := (hgives first (by simp)).1
      have hsecond := (hgives second (by simp)).1
      simp only [List.flatMap_cons, List.length_append]
      omega
  · obtain ⟨x, hm, hz⟩ := List.mem_flatMap.1 hz
    exact (hgives x hm).2 z hz

end Joins

end FilterQuery.Condition
