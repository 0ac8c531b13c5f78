import FilterQuery.Proofs.Lexicon
import FilterQuery.Proofs.RoundTrip
import FilterQuery.Proofs.Runs

/-!
# What accepted texts ask for

The query of an accepted text can be written again (`Query.isWritable_of_ofText`), and each node of
OR below a node of AND was written as a group of its own, so no way down its condition has more of
them than groups can be open (`Disjunction.groups_le_depth`). In a normal condition AND and OR take
turns on a way down, so the ways are short as well (`Condition.Way.length_le`).
-/

namespace FilterQuery

namespace Condition

/-- The first condition is the second one or stands in it. -/
inductive Within (x : Condition) : Condition → Prop
  | root : Within x x
  | child {c : Connective} {xs : List Condition} {y : Condition} (hy : y ∈ xs) (h : Within x y) :
    Within x (.node c xs)

/-- The connectives of the nodes on a way from the root to a leaf. -/
inductive Way : Condition → List Connective → Prop
  | leaf (l : Leaf) : Way (.leaf l) []
  | node {c : Connective} {xs : List Condition} {x : Condition} {way : List Connective}
    (hx : x ∈ xs) (h : Way x way) : Way (.node c xs) (c :: way)

end Condition

/-- How often OR comes right below AND on a way. -/
def orsBelowAnd (way : List Connective) : Nat :=
  (way.zip way.tail).count (.and, .or)

/-- Segments with points between them, and no reserved word in any letter case. -/
def IsName (name : String) : Prop :=
  IsPath name.toList ∧ ('.' ∉ name.toList →
    ∀ entry ∈ Token.reserved, name.toList.map Char.toLower ≠ entry.1.toList)

/-- What the conditions of accepted texts have in common. -/
structure Condition.WellShaped (x : Condition) : Prop where
  nodes : ∀ c xs, Within (.node c xs) x → 2 ≤ xs.length ∧ ∀ y ∈ xs, y.connective? ≠ some c
  names : ∀ l ∈ x.leaves, IsName l.identifier
  lists : ∀ l ∈ x.leaves, ∀ negated vs, l.predicate = .member negated vs → vs ≠ []
  numbers : ∀ l ∈ x.leaves, ∀ z, .float z ∈ l.predicate.literals → ∃ y, z = .finite y
  ways : ∀ way, x.Way way → orsBelowAnd way ≤ 64 ∧ way.length ≤ 130

section Ways

variable {x : Condition} {way : List Connective}

theorem orsBelowAnd_cons_cons (c d : Connective) (way : List Connective) :
    orsBelowAnd (c :: d :: way) =
      orsBelowAnd (d :: way) + if c = .and ∧ d = .or then 1 else 0 := by
  simp only [orsBelowAnd, List.tail_cons, List.zip_cons_cons, List.count_cons, beq_iff_eq,
    Prod.mk.injEq]

/-- Where AND and OR take turns, each OR but a first one comes right below AND. -/
theorem length_le_of_isChain : ∀ {way : List Connective}, way.IsChain (· ≠ ·) →
    way.length ≤ 2 * orsBelowAnd way + if way.head? = some .or then 2 else 1
  | [], _ => by simp
  | [c], _ => by cases c <;> decide
  | c :: d :: way, h => by
    obtain ⟨hcd, h⟩ := List.isChain_cons_cons.1 h
    have ih := length_le_of_isChain h
    rw [orsBelowAnd_cons_cons, List.length_cons]
    cases c <;> cases d
    case and.and | or.or => exact absurd rfl hcd
    all_goals
      simp only [List.head?_cons, List.length_cons, Option.some.injEq, reduceCtorEq, and_self,
        if_true, if_false] at ih ⊢
      omega

namespace Condition

theorem groupsOfAll_le_iff {c : Connective} {n : Nat} : ∀ {xs : List Condition},
    groupsOfAll c xs ≤ n ↔ ∀ x ∈ xs, x.groups + (x.isGroupIn c).toNat ≤ n
  | [] => by simp [groupsOfAll]
  | x :: xs => by
    rw [groupsOfAll, Nat.max_le, List.forall_mem_cons, @groupsOfAll_le_iff c n xs]

theorem Way.head? (h : x.Way way) : way.head? = x.connective? := by
  cases h <;> rfl

theorem Way.orsBelowAnd_le (h : x.Way way) : orsBelowAnd way ≤ x.groups := by
  induction h with
  | leaf l => exact Nat.le_refl 0
  | @node c xs x way hx h ih =>
    have hgroups := groupsOfAll_le_iff.1 (Nat.le_refl (groupsOfAll c xs)) x hx
    refine Nat.le_trans ?_ hgroups
    have hhead := h.head?
    cases way with
    | nil => exact Nat.zero_le _
    | cons d way =>
      rw [orsBelowAnd_cons_cons, isGroupIn, ← hhead]
      cases c <;> cases d <;> simp <;> omega

theorem Way.isChain (h : x.Way way) (hn : x.isNormal = true) : way.IsChain (· ≠ ·) := by
  induction h with
  | leaf l => exact .nil
  | @node c xs x way hx h ih =>
    obtain ⟨hc, hn⟩ := (isNormal_node.1 hn).2 x hx
    refine List.IsChain.cons (ih hn) fun d hd heq => ?_
    rw [h.head?] at hd
    exact hc (heq ▸ hd)

/-- On a way down a normal condition AND and OR take turns. -/
theorem Way.length_le (h : x.Way way) (hn : x.isNormal = true) : way.length ≤ 2 * x.groups + 2 := by
  have hlength := length_le_of_isChain (h.isChain hn)
  have hors := h.orsBelowAnd_le
  split at hlength <;> omega

theorem isNormal_of_within {y : Condition} (h : Within x y) (hn : y.isNormal = true) :
    x.isNormal = true := by
  induction h with
  | root => exact hn
  | child hy _ ih => exact ih ((isNormal_node.1 hn).2 _ hy).2

end Condition

end Ways

theorem Condition.Joins.groups_le {c : Connective} {xs : List Condition} {y : Condition}
    (h : Joins c xs y) {n : Nat} (hx : ∀ x ∈ xs, x.groups + (x.isGroupIn c).toNat ≤ n) :
    y.groups ≤ n := by
  rcases joins_iff_or.1 h with rfl | ⟨-, rfl⟩
  · exact Nat.le_trans (Nat.le_add_right _ _) (hx y (List.mem_singleton_self y))
  rw [groups, groupsOfAll_le_iff]
  intro z hz
  obtain ⟨x, hm, hz⟩ := List.mem_flatMap.1 hz
  have hle := hx x hm
  rcases splice_cases c x with ⟨children, rfl, hs⟩ | ⟨-, hs⟩ <;> rw [hs] at hz
  · exact Nat.le_trans (groupsOfAll_le_iff.1 (Nat.le_refl _) z hz)
      (Nat.le_trans (Nat.le_add_right _ _) hle)
  · rwa [List.mem_singleton.1 hz]

namespace Disjunction

/-- Each node of OR below a node of AND was written as a group. -/
theorem groups_le_depth (d : Disjunction) : d.condition.groups ≤ d.depth := by
  induction d using Disjunction.induction with
  | groups d ih =>
    refine d.joins.groups_le (List.forall_mem_map.2 fun c hc => ?_)
    have hd : c.depth ≤ d.depth := depth_le_iff.1 (Nat.le_refl _) c hc
    have hc : c.condition.groups ≤ c.depth := by
      refine c.joins.groups_le (List.forall_mem_map.2 fun o ho => ?_)
      have ho' : o.depth ≤ c.depth := Conjunction.depth_le_iff.1 (Nat.le_refl _) o ho
      refine Nat.le_trans ?_ ho'
      cases o with
      | test t => exact Nat.zero_le _
      | group e => exact Nat.add_le_add (ih c hc e ho) (Bool.toNat_le _)
    -- nothing is a group below OR
    exact Nat.le_trans hc hd

theorem isNormal_condition (d : Disjunction) : d.condition.isNormal = true := by
  induction d using Disjunction.induction with
  | groups d ih =>
    refine d.joins.isNormal (List.forall_mem_map.2 fun c hc => ?_)
    refine c.joins.isNormal (List.forall_mem_map.2 fun o ho => ?_)
    cases o with
    | test t => rfl
    | group e => exact ih c hc e ho

end Disjunction

theorem Test.isWritable_leaf {t : Test} (h : ∀ u ∈ t.tokens, u.IsWritable) :
    t.leaf.IsWritable where
  identifier := h _ t.identifier_mem_tokens
  literals v hv := h _ (t.literal_mem_tokens v hv)
  nonempty := t.literals_leaf_ne_nil

theorem Sentence.Derives.isWritable {s : Sentence} {text : String} (h : s.Derives text) :
    ∀ t ∈ s.tokens, t.IsWritable := by
  obtain ⟨_, -, hs⟩ := derives_iff.1 h
  rw [← hs]
  exact List.forall_mem_map.2 (Cursor.isWritable_deliver _)

theorem Disjunction.isWritable_leaves {d : Disjunction} (h : ∀ t ∈ d.tokens, t.IsWritable) :
    ∀ l ∈ d.condition.leaves, l.IsWritable := by
  intro l hl
  obtain ⟨t, rfl, ht⟩ := exists_test hl
  exact t.isWritable_leaf fun u hu => h u (ht hu)

theorem Run.isWritable_items {terms : Run SortTerm} (h : ∀ t ∈ terms.orderTokens, t.IsWritable) :
    ∀ item ∈ terms.toList.map SortTerm.item, (Token.identifier item.identifier).IsWritable := by
  refine List.forall_mem_map.2 fun t ht => h _ ?_
  have hmem : Token.identifier t.identifier ∈ terms.tokens SortTerm.tokens := by
    rw [tokens_eq]
    exact subset_intercalate (List.mem_map_of_mem ht) List.mem_cons_self
  simp [orderTokens, SortTerm.item, hmem]

/-- What is asked for can be written, and with as many groups as are open in the text. -/
theorem Sentence.isWritable_query {s : Sentence} (h : ∀ t ∈ s.tokens, t.IsWritable) :
    s.query.IsWritable ∧ s.query.groups ≤ s.depth := by
  cases s with
  | filter d =>
    refine ⟨⟨?_, ?_, nofun, nofun⟩, d.groups_le_depth⟩
    · rintro x ⟨⟩
      exact d.isNormal_condition
    · rintro x ⟨⟩
      exact d.isWritable_leaves h
  | order terms =>
    refine ⟨⟨nofun, nofun, ?_, ?_⟩, Nat.zero_le _⟩
    · rintro items ⟨⟩
      simpa using terms.toList_ne_nil
    · rintro items ⟨⟩
      exact terms.isWritable_items h
  | both d terms =>
    obtain ⟨hd, ht⟩ := List.forall_mem_append.1 h
    refine ⟨⟨?_, ?_, ?_, ?_⟩, d.groups_le_depth⟩
    · rintro x ⟨⟩
      exact d.isNormal_condition
    · rintro x ⟨⟩
      exact d.isWritable_leaves hd
    · rintro items ⟨⟩
      simpa using terms.toList_ne_nil
    · rintro items ⟨⟩
      exact terms.isWritable_items ht

theorem Query.isWritable_of_ofText {text : String} {q : Query} (h : Query.ofText text = .ok q) :
    q.IsWritable ∧ q.groups ≤ maxNesting := by
  by_cases ht : text = ""
  · subst ht
    cases h
    exact ⟨⟨nofun, nofun, nofun, nofun⟩, Nat.zero_le _⟩
  obtain ⟨s, hs, hd, rfl⟩ := exists_derives_of_ofText h ht
  obtain ⟨hw, hg⟩ := Sentence.isWritable_query hs.isWritable
  exact ⟨hw, Nat.le_trans hg hd⟩

theorem isName_of_isWritable {name : String} (h : (Token.identifier name).IsWritable) :
    IsName name := by
  refine ⟨h.1, fun _ entry hmem hname => ?_⟩
  have hsome := ofReserved?_eq_some_iff.2 ⟨_, hmem, hname⟩
  rw [String.ofList_toList, h.2] at hsome
  cases hsome

theorem Condition.wellShaped_of_isNormal {x : Condition} (hn : x.isNormal = true)
    (hl : ∀ l ∈ x.leaves, l.IsWritable) (hg : x.groups ≤ 64) : x.WellShaped where
  nodes c xs h := isNormal_node.1 (isNormal_of_within h hn) |>.imp_right fun hx y hy => (hx y hy).1
  names l h := isName_of_isWritable (hl l h).identifier
  lists l h negated vs hp hvs := (hl l h).nonempty (by rw [hp, hvs]; rfl)
  numbers l h z hz := (hl l h).literals _ hz
  ways way h := by
    have hors := h.orsBelowAnd_le
    have hlength := h.length_le hn
    omega

/-- The condition of an accepted text is normal and well shaped, and its sort items have names and
are not none at all. -/
theorem wellShaped_of_ofText {text : String} {q : Query} (h : Query.ofText text = .ok q) :
    (∀ x, q.filter = some x → x.isNormal = true ∧ x.WellShaped) ∧
      ∀ items, q.order = some items → items ≠ [] ∧ ∀ item ∈ items, IsName item.identifier := by
  obtain ⟨hw, hg⟩ := Query.isWritable_of_ofText h
  refine ⟨fun x hx => ?_, fun items hi => ⟨hw.order_ne_nil items hi, fun item hm =>
    isName_of_isWritable (hw.order items hi item hm)⟩⟩
  have hgroups : x.groups ≤ 64 := by
    rw [Query.groups, hx] at hg
    exact hg
  exact ⟨hw.normal x hx, x.wellShaped_of_isNormal (hw.normal x hx) (hw.leaves x hx) hgroups⟩

theorem wellShaped_of_ofText_list : ∃ q x items,
    Query.ofText "a.b IN ('x') OR c < 2.5 ORDER BY d" = .ok q ∧ q.filter = some x ∧
      q.order = some items ∧ x.isNormal = true ∧ x.WellShaped ∧ items ≠ [] := by
  have hread : Sentence.ofText "a.b IN ('x') OR c < 2.5 ORDER BY d" = .ok (.both
      (.more (.one (.one (.test (.member "a.b" false (.one (.string "x"))))))
        (.one (.test (.compare "c" .less
          (.float (Binary64.ofDecimal (.ofDigits false ['2'] ['5'] 0)))))))
      (.one ⟨"d", none⟩)) := by
    refine Stage.read_eq_ok_of_passes (.cons rfl nofun (.cons rfl nofun (.cons rfl nofun
      (.cons rfl nofun (.cons rfl nofun (.cons rfl nofun (.cons rfl nofun (.cons rfl nofun
        (.cons rfl nofun (.cons rfl nofun (.cons rfl nofun (.cons rfl nofun
          (.nil _))))))))))))) ?_ rfl rfl
    nofun
  have h := (ofText_eq_ok_iff_sentence (by decide)).2 ⟨_, hread, rfl⟩
  obtain ⟨hfilter, horder⟩ := wellShaped_of_ofText h
  exact ⟨_, _, _, h, rfl, rfl, (hfilter _ rfl).1, (hfilter _ rfl).2, (horder _ rfl).1⟩

end FilterQuery
