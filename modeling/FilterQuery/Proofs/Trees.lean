import FilterQuery.Condition

/-!
# Conditions as trees

What is said of conditions run by run, said child by child, and the induction over a condition that
goes with it (`Condition.induction`).
-/

namespace FilterQuery.Condition

variable {c : Connective} {x : Condition} {xs : List Condition}

/-- A property of all conditions: the leaves have it, and a node has it if its children do. -/
@[elab_as_elim]
theorem induction {motive : Condition → Prop} (leaf : ∀ l, motive (.leaf l))
    (node : ∀ c children, (∀ x ∈ children, motive x) → motive (.node c children)) (x : Condition) :
    motive x := by
  match x with
  | .leaf l => exact leaf l
  | .node c children => exact node c children fun x _ => induction leaf node x

theorem areNormalIn_iff : ∀ {xs : List Condition},
    areNormalIn c xs = true ↔ ∀ x ∈ xs, x.connective? ≠ some c ∧ x.isNormal = true
  | [] => by simp [areNormalIn]
  | x :: xs => by simp [areNormalIn, @areNormalIn_iff xs]

theorem isNormal_node :
    (node c xs).isNormal = true ↔
      2 ≤ xs.length ∧ ∀ x ∈ xs, x.connective? ≠ some c ∧ x.isNormal = true := by
  simp [isNormal, areNormalIn_iff]

theorem leavesOfAll_eq_flatMap : ∀ xs : List Condition, leavesOfAll xs = xs.flatMap leaves
  | [] => rfl
  | x :: xs => by rw [leavesOfAll, leavesOfAll_eq_flatMap xs, List.flatMap_cons]

theorem mem_leaves_node {l : Leaf} : l ∈ (node c xs).leaves ↔ ∃ x ∈ xs, l ∈ x.leaves := by
  rw [leaves, leavesOfAll_eq_flatMap, List.mem_flatMap]

theorem splice_cases (c : Connective) (x : Condition) :
    (∃ xs, x = .node c xs ∧ splice c x = xs) ∨ x.connective? ≠ some c ∧ splice c x = [x] := by
  cases x with
  | leaf l => exact .inr ⟨nofun, rfl⟩
  | node d xs =>
    by_cases hd : c = d
    · subst hd
      exact .inl ⟨xs, rfl, if_pos rfl⟩
    · exact .inr ⟨fun h => hd (Option.some.inj h).symm, if_neg hd⟩

theorem splice_eq_self (h : x.connective? ≠ some c) : splice c x = [x] := by
  rcases splice_cases c x with ⟨xs, rfl, -⟩ | ⟨-, hs⟩
  · exact absurd rfl h
  · exact hs

theorem flatMap_splice_eq_self : ∀ {xs : List Condition},
    (∀ x ∈ xs, x.connective? ≠ some c) → xs.flatMap (splice c) = xs
  | [], _ => rfl
  | x :: xs, h => by
    rw [List.flatMap_cons, splice_eq_self (h x List.mem_cons_self),
      flatMap_splice_eq_self fun y hy => h y (List.mem_cons_of_mem x hy), List.singleton_append]

end FilterQuery.Condition
