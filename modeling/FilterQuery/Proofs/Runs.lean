import FilterQuery.Proofs.Printing
import FilterQuery.Proofs.Regrouping

/-!
# Sentences run by run

A disjunction as the list of its conjunctions, a conjunction as the list of its operands. The list
tells the tokens, the condition and the depth of the phrase, and every list but the empty one is
that of a phrase, so a phrase can be changed by changing its list. What holds of a disjunction
whenever it holds of the groups that stand in it holds of all (`Disjunction.induction`).
-/

namespace FilterQuery

section Lists

variable {α β : Type} {s t : β}

theorem intercalate_append_of_ne_nil {xs ys : List (List β)} (hx : xs ≠ []) (hy : ys ≠ []) :
    [s].intercalate (xs ++ ys) = [s].intercalate xs ++ s :: [s].intercalate ys := by
  obtain ⟨x, xs, rfl⟩ := List.exists_cons_of_ne_nil hx
  obtain ⟨y, ys, rfl⟩ := List.exists_cons_of_ne_nil hy
  rw [List.cons_append, intercalate_cons, intercalate_cons, intercalate_cons]
  simp

/-- Separated lists with the same separator between them. -/
theorem intercalate_flatten {xss : List (List (List β))} (h : ∀ xs ∈ xss, xs ≠ []) :
    [s].intercalate (xss.map [s].intercalate) = [s].intercalate xss.flatten := by
  induction xss with
  | nil => rfl
  | cons xs xss ih =>
    obtain ⟨hxs, hxss⟩ := List.forall_mem_cons.1 h
    by_cases hn : xss = []
    · simp [hn]
    have hmap : xss.map [s].intercalate ≠ [] := by simpa using hn
    have hflatten : xss.flatten ≠ [] := by
      obtain ⟨ys, hys⟩ := List.exists_mem_of_ne_nil xss hn
      exact fun hnil => hxss ys hys (List.flatten_eq_nil_iff.1 hnil ys hys)
    rw [List.map_cons, List.intercalate_cons_of_ne_nil hmap, ih hxss, List.flatten_cons,
      intercalate_append_of_ne_nil hxs hflatten, List.append_assoc, List.singleton_append]

/-- A stretch of a separated list, with what stands in front of it and behind it. -/
theorem intercalate_append (f : α → List β) (xs : List α) {ys : List α} (h : ys ≠ [])
    (zs : List α) : [s].intercalate ((xs ++ ys ++ zs).map f) =
      xs.flatMap (fun x => f x ++ [s]) ++ [s].intercalate (ys.map f) ++
        zs.flatMap (fun z => s :: f z) := by
  obtain ⟨y, ys, rfl⟩ := List.exists_cons_of_ne_nil h
  induction xs with
  | nil => simp [intercalate_cons, List.flatMap_map]
  | cons x xs ih =>
    have hne : (xs ++ y :: ys ++ zs).map f ≠ [] := by simp
    rw [List.cons_append, List.cons_append, List.map_cons, List.intercalate_cons_of_ne_nil hne, ih]
    simp

theorem subset_intercalate {x : List β} {xs : List (List β)} (h : x ∈ xs) :
    x ⊆ [s].intercalate xs := by
  obtain ⟨ys, zs, rfl⟩ := List.append_of_mem h
  have hsplit := @intercalate_append _ _ s id ys [x] (by simp) zs
  simp only [List.map_id, List.append_assoc, List.singleton_append] at hsplit
  rw [hsplit]
  intro a ha
  simp [ha]

/-- Something other than a separator stands in one of the things that are separated. -/
theorem exists_of_intercalate_eq (f : α → List β) (hts : t ≠ s) : ∀ {xs : List α}
    {front back : List β}, [s].intercalate (xs.map f) = front ++ t :: back →
      ∃ ys y zs b a, xs = ys ++ y :: zs ∧ f y = b ++ t :: a ∧
        front = ys.flatMap (fun x => f x ++ [s]) ++ b ∧ back = a ++ zs.flatMap fun z => s :: f z
  | [], front, back, h => by simp at h
  | x :: xs, front, back, h => by
    rw [List.map_cons, intercalate_cons, List.flatMap_map] at h
    rcases List.append_eq_append_iff.1 h with ⟨as, hf, hs⟩ | ⟨bs, hx, hb⟩
    · -- behind `x`, and the separator
      obtain ⟨second, rest, rfl⟩ : ∃ second rest, xs = second :: rest := by
        cases xs with
        | nil => simp at hs
        | cons second rest => exact ⟨second, rest, rfl⟩
      rw [List.flatMap_cons, List.cons_append] at hs
      rcases List.cons_eq_append_iff.1 hs with ⟨-, hs⟩ | ⟨as, rfl, hs⟩
      · exact absurd (List.cons.inj hs).1 hts
      · have hrest : [s].intercalate ((second :: rest).map f) = as ++ t :: back := by
          rw [List.map_cons, intercalate_cons, List.flatMap_map]
          exact (List.cons.inj hs).2
        obtain ⟨ys, y, zs, b, a, hxs, hy, hfront, hback⟩ := exists_of_intercalate_eq f hts hrest
        exact ⟨x :: ys, y, zs, b, a, by rw [hxs]; rfl, hy, by simp [hf, hfront], hback⟩
    · rcases List.cons_eq_append_iff.1 hb with ⟨-, hb⟩ | ⟨as, rfl, hb⟩
      · -- the separator behind `x` is no `t`
        cases xs with
        | nil => cases hb
        | cons second rest => exact absurd (List.cons.inj hb).1.symm hts
      · exact ⟨[], x, xs, front, as, rfl, hx, by simp, (List.cons.inj hb).2⟩

end Lists

namespace Run

variable {α : Type}

theorem toList_ne_nil (r : Run α) : r.toList ≠ [] := by
  cases r <;> simp [toList]

theorem tokens_eq (f : α → List Token) : ∀ r : Run α,
    r.tokens f = [Token.comma].intercalate (r.toList.map f)
  | .one x => by simp [tokens, toList]
  | .more init x => by
    have hne : init.toList.map f ≠ [] := by simpa using init.toList_ne_nil
    rw [tokens, toList, List.map_append, List.map_singleton,
      intercalate_append_of_ne_nil hne (by simp), List.intercalate_singleton, tokens_eq f init]

end Run

/-- The conjunctions of a disjunction, in order. -/
def Disjunction.toList : Disjunction → List Conjunction
  | .one first => [first]
  | .more init last => init.toList ++ [last]

/-- The operands of a conjunction, in order. -/
def Conjunction.toList : Conjunction → List Operand
  | .one first => [first]
  | .more init last => init.toList ++ [last]

namespace Disjunction

/-- Induction along the run of a disjunction, which leaves its conjunctions as they are. -/
@[elab_as_elim]
theorem run_induction {motive : Disjunction → Prop} (one : ∀ first, motive (.one first))
    (more : ∀ init last, motive init → motive (.more init last)) (d : Disjunction) : motive d :=
  @Disjunction.rec motive (fun _ => True) (fun _ => True) (fun first _ => one first)
    (fun init last ih _ => more init last ih) (fun _ _ => trivial) (fun _ _ _ _ => trivial)
    (fun _ => trivial) (fun _ _ => trivial) d

theorem toList_ne_nil (d : Disjunction) : d.toList ≠ [] := by
  cases d <;> simp [toList]

theorem exists_toList_eq {cs : List Conjunction} (h : cs ≠ []) :
    ∃ d : Disjunction, d.toList = cs := by
  induction cs using List.reverseRecOn with
  | nil => exact absurd rfl h
  | append_singleton cs c ih =>
    by_cases hcs : cs = []
    · exact ⟨.one c, by rw [hcs]; rfl⟩
    · obtain ⟨d, rfl⟩ := ih hcs
      exact ⟨.more d c, rfl⟩

theorem tokens_eq (d : Disjunction) :
    d.tokens = [Token.keyword .or].intercalate (d.toList.map Conjunction.tokens) := by
  induction d using run_induction with
  | one c => simp [tokens, toList]
  | more init last ih =>
    have hne : init.toList.map Conjunction.tokens ≠ [] := by simpa using init.toList_ne_nil
    rw [tokens, toList, List.map_append, List.map_singleton,
      intercalate_append_of_ne_nil hne (by simp), List.intercalate_singleton, ih]

/-- The tokens of conjunctions in front of another one. -/
def tokensInFront (cs : List Conjunction) : List Token :=
  cs.flatMap fun c => c.tokens ++ [.keyword .or]

/-- The tokens of conjunctions behind another one. -/
def tokensBehind (cs : List Conjunction) : List Token :=
  cs.flatMap fun c => .keyword .or :: c.tokens

variable {d : Disjunction} {xs ys zs : List Conjunction}

theorem tokens_of_append (h : d.toList = xs ++ ys ++ zs) (hy : ys ≠ []) :
    d.tokens = tokensInFront xs ++
      [Token.keyword .or].intercalate (ys.map Conjunction.tokens) ++ tokensBehind zs := by
  rw [tokens_eq, h, intercalate_append _ _ hy]
  rfl

theorem tokens_of_append_cons {c : Conjunction} (h : d.toList = xs ++ c :: zs) :
    d.tokens = tokensInFront xs ++ c.tokens ++ tokensBehind zs := by
  rw [← List.singleton_append, ← List.append_assoc] at h
  rw [tokens_of_append h (by simp)]
  simp

theorem conditions_eq (d : Disjunction) :
    d.conditions.1 :: d.conditions.2 = d.toList.map Conjunction.condition := by
  induction d using run_induction with
  | one c => rfl
  | more init last ih =>
    rw [toList, List.map_append, ← ih]
    rfl

theorem joins (d : Disjunction) :
    Condition.Joins .or (d.toList.map Conjunction.condition) d.condition := by
  rw [← conditions_eq]
  exact Condition.joins_iff.2 rfl

/-- There is a disjunction that joins the one conjunction and those in front of it and behind it. -/
theorem exists_between (xs : List Conjunction) (c : Conjunction) (zs : List Conjunction) :
    ∃ d : Disjunction, d.tokens = tokensInFront xs ++ c.tokens ++ tokensBehind zs ∧
      Condition.Joins .or (xs.map Conjunction.condition ++
        c.condition :: zs.map Conjunction.condition) d.condition := by
  obtain ⟨d, hd⟩ := @exists_toList_eq (xs ++ c :: zs) (by simp)
  have hjoins := d.joins
  rw [hd, List.map_append, List.map_cons] at hjoins
  exact ⟨d, tokens_of_append_cons hd, hjoins⟩

theorem depth_le_iff {n : Nat} : d.depth ≤ n ↔ ∀ c ∈ d.toList, c.depth ≤ n := by
  induction d using run_induction with
  | one c => simp [depth, toList]
  | more init last ih =>
    rw [depth, Nat.max_le, toList, List.forall_mem_append, List.forall_mem_singleton, ih]

end Disjunction

namespace Conjunction

/-- Induction along the run of a conjunction, which leaves its operands as they are. -/
@[elab_as_elim]
theorem run_induction {motive : Conjunction → Prop} (one : ∀ first, motive (.one first))
    (more : ∀ init last, motive init → motive (.more init last)) (c : Conjunction) : motive c :=
  @Conjunction.rec (fun _ => True) motive (fun _ => True) (fun _ _ => trivial)
    (fun _ _ _ _ => trivial) (fun first _ => one first) (fun init last ih _ => more init last ih)
    (fun _ => trivial) (fun _ _ => trivial) c

theorem toList_ne_nil (c : Conjunction) : c.toList ≠ [] := by
  cases c <;> simp [toList]

theorem exists_toList_eq {os : List Operand} (h : os ≠ []) :
    ∃ c : Conjunction, c.toList = os := by
  induction os using List.reverseRecOn with
  | nil => exact absurd rfl h
  | append_singleton os o ih =>
    by_cases hos : os = []
    · exact ⟨.one o, by rw [hos]; rfl⟩
    · obtain ⟨c, rfl⟩ := ih hos
      exact ⟨.more c o, rfl⟩

theorem tokens_eq (c : Conjunction) :
    c.tokens = [Token.keyword .and].intercalate (c.toList.map Operand.tokens) := by
  induction c using run_induction with
  | one o => simp [tokens, toList]
  | more init last ih =>
    have hne : init.toList.map Operand.tokens ≠ [] := by simpa using init.toList_ne_nil
    rw [tokens, toList, List.map_append, List.map_singleton,
      intercalate_append_of_ne_nil hne (by simp), List.intercalate_singleton, ih]

/-- The tokens of operands in front of another one. -/
def tokensInFront (os : List Operand) : List Token :=
  os.flatMap fun o => o.tokens ++ [.keyword .and]

/-- The tokens of operands behind another one. -/
def tokensBehind (os : List Operand) : List Token :=
  os.flatMap fun o => .keyword .and :: o.tokens

variable {c : Conjunction} {xs ys zs : List Operand}

theorem tokens_of_append (h : c.toList = xs ++ ys ++ zs) (hy : ys ≠ []) :
    c.tokens = tokensInFront xs ++
      [Token.keyword .and].intercalate (ys.map Operand.tokens) ++ tokensBehind zs := by
  rw [tokens_eq, h, intercalate_append _ _ hy]
  rfl

theorem tokens_of_append_cons {o : Operand} (h : c.toList = xs ++ o :: zs) :
    c.tokens = tokensInFront xs ++ o.tokens ++ tokensBehind zs := by
  rw [← List.singleton_append, ← List.append_assoc] at h
  rw [tokens_of_append h (by simp)]
  simp

theorem conditions_eq (c : Conjunction) :
    c.conditions.1 :: c.conditions.2 = c.toList.map Operand.condition := by
  induction c using run_induction with
  | one o => rfl
  | more init last ih =>
    rw [toList, List.map_append, ← ih]
    rfl

theorem joins (c : Conjunction) :
    Condition.Joins .and (c.toList.map Operand.condition) c.condition := by
  rw [← conditions_eq]
  exact Condition.joins_iff.2 rfl

/-- There is a conjunction that joins the one operand and those in front of it and behind it. -/
theorem exists_between (xs : List Operand) (o : Operand) (zs : List Operand) :
    ∃ c : Conjunction, c.tokens = tokensInFront xs ++ o.tokens ++ tokensBehind zs ∧
      Condition.Joins .and (xs.map Operand.condition ++
        o.condition :: zs.map Operand.condition) c.condition := by
  obtain ⟨c, hc⟩ := @exists_toList_eq (xs ++ o :: zs) (by simp)
  have hjoins := c.joins
  rw [hc, List.map_append, List.map_cons] at hjoins
  exact ⟨c, tokens_of_append_cons hc, hjoins⟩

theorem depth_le_iff {n : Nat} : c.depth ≤ n ↔ ∀ o ∈ c.toList, o.depth ≤ n := by
  induction c using run_induction with
  | one o => simp [depth, toList]
  | more init last ih =>
    rw [depth, Nat.max_le, toList, List.forall_mem_append, List.forall_mem_singleton, ih]

end Conjunction

theorem Test.identifier_mem_tokens : ∀ t : Test, .identifier t.leaf.identifier ∈ t.tokens
  | .compare .. => by simp [leaf, tokens]
  | .member .. => by simp [leaf, tokens]

theorem Test.literals_leaf_ne_nil : ∀ t : Test, t.leaf.predicate.literals ≠ []
  | .compare .. => nofun
  | .member _ _ values => values.toList_ne_nil

theorem Test.literal_mem_tokens : ∀ t : Test, ∀ v ∈ t.leaf.predicate.literals,
    .literal v ∈ t.tokens
  | .compare .. => by simp [leaf, tokens, Predicate.literals]
  | .member name negated values => fun v hv => by
    have hmem : Token.literal v ∈ values.tokens fun v => [.literal v] := by
      rw [Run.tokens_eq]
      exact subset_intercalate (List.mem_map_of_mem hv) (List.mem_singleton_self _)
    simp [tokens, hmem]

namespace Disjunction

variable {d e : Disjunction} {c : Conjunction} {o : Operand}

theorem depth_lt_of_group (hc : c ∈ d.toList) (he : .group e ∈ c.toList) : e.depth < d.depth :=
  Conjunction.depth_le_iff.1 (depth_le_iff.1 (Nat.le_refl _) c hc) _ he

/-- A property of all disjunctions: one has it if the groups among its operands do. -/
@[elab_as_elim]
theorem induction {motive : Disjunction → Prop}
    (groups : ∀ d, (∀ c ∈ d.toList, ∀ e, .group e ∈ c.toList → motive e) → motive d)
    (d : Disjunction) : motive d :=
  groups d fun _ hc e he =>
    have := depth_lt_of_group hc he
    induction groups e
termination_by d.depth

theorem tokens_subset (hc : c ∈ d.toList) (ho : o ∈ c.toList) : o.tokens ⊆ d.tokens := by
  rw [tokens_eq]
  refine List.Subset.trans ?_ (subset_intercalate (List.mem_map_of_mem hc))
  rw [Conjunction.tokens_eq]
  exact subset_intercalate (List.mem_map_of_mem ho)

theorem mem_leaves {l : Leaf} :
    l ∈ d.condition.leaves ↔ ∃ c ∈ d.toList, ∃ o ∈ c.toList, l ∈ o.condition.leaves := by
  rw [d.joins.leaves_eq, List.flatMap_map]
  simp only [List.mem_flatMap, fun c : Conjunction => c.joins.leaves_eq, List.mem_map,
    exists_exists_and_eq_and]

/-- A leaf of the condition is that of a test whose tokens are among those of the disjunction. -/
theorem exists_test {l : Leaf} (h : l ∈ d.condition.leaves) :
    ∃ t : Test, t.leaf = l ∧ t.tokens ⊆ d.tokens := by
  induction d using Disjunction.induction with
  | groups d ih =>
    obtain ⟨c, hc, o, ho, h⟩ := mem_leaves.1 h
    cases o with
    | test t =>
      rw [Operand.condition, Condition.leaves, List.mem_singleton] at h
      exact ⟨t, h.symm, tokens_subset hc ho⟩
    | group e =>
      obtain ⟨t, ht, hsub⟩ := ih c hc e ho h
      refine ⟨t, ht, fun x hx => tokens_subset hc ho ?_⟩
      rw [Operand.tokens]
      simp [hsub hx]

end Disjunction

end FilterQuery
