import FilterQuery.Proofs.Spelling
import FilterQuery.Proofs.Trees
import FilterQuery.Proofs.Walk

/-!
# Printing queries

The tokens that write a query. AND and OR stand between the children of a node, and parentheses
around exactly those nodes of OR that are children of a node of AND. What is printed of a normal
condition are the tokens of a disjunction that stands for the condition and has as many groups open
as parentheses were needed (`Condition.exists_prints`), so what is printed of a query are the tokens
of a sentence that asks for it (`Query.exists_sentence`).
-/

namespace FilterQuery

/-- The tokens in parentheses, or as they are. -/
def enclose (inParens : Bool) (ts : List Token) : List Token :=
  if inParens then .openParen :: (ts ++ [.closeParen]) else ts

def Connective.token : Connective → Token
  | .and => .keyword .and
  | .or => .keyword .or

def Predicate.tokens : Predicate → List Token
  | .compare op value => [.comparison op, .literal value]
  | .member negated values =>
    (if negated then [.keyword .not] else []) ++ .keyword .inList :: .openParen ::
      ([Token.comma].intercalate (values.map fun v => [.literal v]) ++ [.closeParen])

def Predicate.literals : Predicate → List Literal
  | .compare _ value => [value]
  | .member _ values => values

def Leaf.tokens (l : Leaf) : List Token :=
  .identifier l.identifier :: l.predicate.tokens

/-- Whether a child of a node of `c` needs parentheses. -/
def Condition.isGroupIn (c : Connective) (x : Condition) : Bool :=
  c = .and && x.connective? = some .or

mutual

def Condition.tokens : Condition → List Token
  | .leaf l => l.tokens
  | .node c children => [c.token].intercalate (Condition.tokensOfAll c children)

/-- The tokens of the children of a node of `c`, child by child. -/
def Condition.tokensOfAll (c : Connective) : List Condition → List (List Token)
  | [] => []
  | x :: xs => enclose (x.isGroupIn c) x.tokens :: Condition.tokensOfAll c xs

end

mutual

/-- The most nodes of OR below a node of AND on a way from the root to a leaf. -/
def Condition.groups : Condition → Nat
  | .leaf _ => 0
  | .node c children => Condition.groupsOfAll c children

def Condition.groupsOfAll (c : Connective) : List Condition → Nat
  | [] => 0
  | x :: xs => max (x.groups + (x.isGroupIn c).toNat) (Condition.groupsOfAll c xs)

end

/-- The most nodes of OR below a node of AND on a way from the root of the filter to a leaf. -/
def Query.groups (q : Query) : Nat :=
  (q.filter.map Condition.groups).getD 0

def SortItem.tokens (item : SortItem) : List Token :=
  [.identifier item.identifier, item.direction.token]

def Query.tokens (q : Query) : List Token :=
  (q.filter.map Condition.tokens).getD [] ++
    (q.order.map fun items => .keyword .order :: .keyword .byKeys ::
      [Token.comma].intercalate (items.map SortItem.tokens)).getD []

theorem intercalate_cons {α : Type} (s : α) (x : List α) : ∀ xs : List (List α),
    [s].intercalate (x :: xs) = x ++ xs.flatMap (s :: ·)
  | [] => by simp [List.intercalate]
  | y :: ys => by
    have ih := intercalate_cons s y ys
    simp only [List.intercalate, List.intersperse_cons_cons, List.flatten_cons,
      List.flatMap_cons] at ih ⊢
    rw [ih]
    rfl

theorem forall_mem_intercalate {α : Type} {p : α → Prop} {s : α} (hs : p s) :
    ∀ {xs : List (List α)}, (∀ x ∈ xs, ∀ a ∈ x, p a) → ∀ a ∈ [s].intercalate xs, p a
  | [], _, a, ha => by simp [List.intercalate] at ha
  | x :: xs, h, a, ha => by
    rw [intercalate_cons, List.mem_append, List.mem_flatMap] at ha
    rcases ha with ha | ⟨y, hy, ha⟩
    · exact h x List.mem_cons_self a ha
    · rcases List.mem_cons.1 ha with rfl | ha
      · exact hs
      · exact h y (List.mem_cons_of_mem x hy) a ha

theorem Condition.tokens_node_cons (c : Connective) (x : Condition) (xs : List Condition) :
    (node c (x :: xs)).tokens =
      enclose (x.isGroupIn c) x.tokens ++ (tokensOfAll c xs).flatMap (c.token :: ·) := by
  rw [tokens, tokensOfAll, intercalate_cons]

variable {α : Type}

theorem Run.exists_append (tokens : α → List Token) : ∀ (vs : List α) (r : Run α),
    ∃ s : Run α, s.toList = r.toList ++ vs ∧
      s.tokens tokens = r.tokens tokens ++ (vs.map tokens).flatMap (.comma :: ·)
  | [], r => ⟨r, by simp, by simp⟩
  | v :: vs, r => by
    obtain ⟨s, hl, ht⟩ := Run.exists_append tokens vs (.more r v)
    exact ⟨s, by simp [hl, toList], by simp [ht, Run.tokens]⟩

theorem Run.exists_of_ne_nil (tokens : α → List Token) {vs : List α} (h : vs ≠ []) :
    ∃ r : Run α, r.toList = vs ∧ r.tokens tokens = [Token.comma].intercalate (vs.map tokens) := by
  obtain ⟨v, vs, rfl⟩ := List.exists_cons_of_ne_nil h
  obtain ⟨r, hl, ht⟩ := Run.exists_append tokens vs (.one v)
  refine ⟨r, hl, ?_⟩
  rw [ht, List.map_cons, intercalate_cons]
  rfl

/-- The leaf can be written: its identifier and its literals can, and it has a literal. -/
structure Leaf.IsWritable (l : Leaf) : Prop where
  identifier : (Token.identifier l.identifier).IsWritable
  literals : ∀ v ∈ l.predicate.literals, (Token.literal v).IsWritable
  nonempty : l.predicate.literals ≠ []

theorem Leaf.isWritable_iff (l : Leaf) : l.IsWritable ↔
    (Token.identifier l.identifier).IsWritable ∧
      (∀ v ∈ l.predicate.literals, (Token.literal v).IsWritable) ∧ l.predicate.literals ≠ [] :=
  ⟨fun h => ⟨h.identifier, h.literals, h.nonempty⟩, fun h => ⟨h.1, h.2.1, h.2.2⟩⟩

instance : DecidablePred Leaf.IsWritable := fun l => decidable_of_iff _ l.isWritable_iff.symm

theorem Leaf.exists_test {l : Leaf} (h : l.predicate.literals ≠ []) :
    ∃ t : Test, t.leaf = l ∧ t.tokens = l.tokens := by
  obtain ⟨name, ⟨op, v⟩ | ⟨negated, values⟩⟩ := l
  · exact ⟨.compare name op v, rfl, rfl⟩
  · obtain ⟨r, hl, ht⟩ := Run.exists_of_ne_nil (fun v => [.literal v]) h
    refine ⟨.member name negated r, ?_, ?_⟩
    · rw [Test.leaf, hl]
      rfl
    · rw [Test.tokens, ht]
      rfl

/-- The operand is what is printed for a condition below a node of AND. -/
structure Operand.Prints (o : Operand) (x : Condition) : Prop where
  tokens : o.tokens = enclose (x.isGroupIn .and) x.tokens
  condition : o.condition = x
  depth : o.depth = x.groups + (x.isGroupIn .and).toNat

/-- The conjunction is what is printed for a condition that is no node of OR. -/
structure Conjunction.Prints (c : Conjunction) (x : Condition) : Prop where
  tokens : c.tokens = x.tokens
  condition : c.condition = x
  depth : c.depth = x.groups

/-- The disjunction is what is printed for a condition. -/
structure Disjunction.Prints (d : Disjunction) (x : Condition) : Prop where
  tokens : d.tokens = x.tokens
  condition : d.condition = x
  depth : d.depth = x.groups

theorem Conjunction.exists_append : ∀ {xs : List Condition},
    (∀ x ∈ xs, ∃ o : Operand, o.Prints x) → ∀ c : Conjunction, ∃ e : Conjunction,
      e.tokens = c.tokens ++ (Condition.tokensOfAll .and xs).flatMap (.keyword .and :: ·) ∧
      e.conditions = (c.conditions.1, c.conditions.2 ++ xs) ∧
      e.depth = max c.depth (Condition.groupsOfAll .and xs)
  | [], _, c => ⟨c, by simp [Condition.tokensOfAll], by simp, by simp [Condition.groupsOfAll]⟩
  | x :: xs, h, c => by
    obtain ⟨o, ho⟩ := h x List.mem_cons_self
    obtain ⟨e, ht, hc, hd⟩ :=
      Conjunction.exists_append (fun y hy => h y (List.mem_cons_of_mem x hy)) (.more c o)
    refine ⟨e, ?_, ?_, ?_⟩
    · rw [ht, tokens, ho.tokens]
      simp [Condition.tokensOfAll]
    · rw [hc, conditions, ho.condition]
      simp
    · rw [hd, depth, ho.depth, Condition.groupsOfAll, Nat.max_assoc]

theorem Disjunction.exists_append : ∀ {xs : List Condition},
    (∀ x ∈ xs, ∃ c : Conjunction, c.Prints x) → ∀ d : Disjunction, ∃ e : Disjunction,
      e.tokens = d.tokens ++ (Condition.tokensOfAll .or xs).flatMap (.keyword .or :: ·) ∧
      e.conditions = (d.conditions.1, d.conditions.2 ++ xs) ∧
      e.depth = max d.depth (Condition.groupsOfAll .or xs)
  | [], _, d => ⟨d, by simp [Condition.tokensOfAll], by simp, by simp [Condition.groupsOfAll]⟩
  | x :: xs, h, d => by
    obtain ⟨c, hx⟩ := h x List.mem_cons_self
    obtain ⟨e, ht, hc, hd⟩ :=
      Disjunction.exists_append (fun y hy => h y (List.mem_cons_of_mem x hy)) (.more d c)
    refine ⟨e, ?_, ?_, ?_⟩
    · rw [ht, tokens, hx.tokens]
      simp [Condition.tokensOfAll, Condition.isGroupIn, enclose]
    · rw [hc, conditions, show (Condition.join .and c.conditions.1 c.conditions.2) = x from
        hx.condition]
      simp
    · rw [hd, depth, hx.depth, Condition.groupsOfAll, Nat.max_assoc]
      rfl

theorem Conjunction.exists_prints_node {xs : List Condition} (hl : 2 ≤ xs.length)
    (hx : ∀ x ∈ xs, x.connective? ≠ some .and) (h : ∀ x ∈ xs, ∃ o : Operand, o.Prints x) :
    ∃ c : Conjunction, c.Prints (.node .and xs) := by
  obtain ⟨x, y, rest, rfl⟩ : ∃ x y rest, xs = x :: y :: rest := by
    match xs, hl with
    | x :: y :: rest, _ => exact ⟨x, y, rest, rfl⟩
  obtain ⟨o, ho⟩ := h x List.mem_cons_self
  obtain ⟨c, ht, hc, hd⟩ :=
    Conjunction.exists_append (fun z hz => h z (List.mem_cons_of_mem x hz)) (.one o)
  refine ⟨c, ?_, ?_, ?_⟩
  · rw [ht, Condition.tokens_node_cons, ← ho.tokens]
    rfl
  · rw [condition, hc]
    simp only [conditions, List.nil_append]
    rw [ho.condition, Condition.join, Condition.flatMap_splice_eq_self hx]
  · rw [hd, depth, ho.depth]
    rfl

theorem Disjunction.exists_prints_node {xs : List Condition} (hl : 2 ≤ xs.length)
    (hx : ∀ x ∈ xs, x.connective? ≠ some .or) (h : ∀ x ∈ xs, ∃ c : Conjunction, c.Prints x) :
    ∃ d : Disjunction, d.Prints (.node .or xs) := by
  obtain ⟨x, y, rest, rfl⟩ : ∃ x y rest, xs = x :: y :: rest := by
    match xs, hl with
    | x :: y :: rest, _ => exact ⟨x, y, rest, rfl⟩
  obtain ⟨c, hp⟩ := h x List.mem_cons_self
  obtain ⟨d, ht, hc, hd⟩ :=
    Disjunction.exists_append (fun z hz => h z (List.mem_cons_of_mem x hz)) (.one c)
  have hfirst : Condition.join .and c.conditions.1 c.conditions.2 = x := hp.condition
  refine ⟨d, ?_, ?_, ?_⟩
  · rw [ht, tokens, hp.tokens, Condition.tokens_node_cons]
    rfl
  · rw [condition, hc]
    simp only [conditions, List.nil_append]
    rw [hfirst, Condition.join, Condition.flatMap_splice_eq_self hx]
  · rw [hd, depth, hp.depth]
    rfl

namespace Condition

/-- A normal condition is printed as a disjunction; below a node of AND it is an operand, and below
a node of OR a conjunction. -/
theorem exists_prints {x : Condition} (hn : x.isNormal = true)
    (hl : ∀ l ∈ x.leaves, l.predicate.literals ≠ []) :
    (∃ d : Disjunction, d.Prints x) ∧
      (x.connective? ≠ some .or → ∃ c : Conjunction, c.Prints x) ∧
      (x.connective? ≠ some .and → ∃ o : Operand, o.Prints x) := by
  induction x using Condition.induction with
  | leaf l =>
    obtain ⟨t, hl, ht⟩ := Leaf.exists_test (hl l (by simp [leaves]))
    have hc : (Operand.test t).condition = .leaf l := congrArg Condition.leaf hl
    exact ⟨⟨.one (.one (.test t)), ht, hc, rfl⟩, fun _ => ⟨.one (.test t), ht, hc, rfl⟩,
      fun _ => ⟨.test t, ht, hc, rfl⟩⟩
  | node c xs ih =>
    obtain ⟨hlength, hx⟩ := isNormal_node.1 hn
    have ih := fun x hm => ih x hm (hx x hm).2 fun l h => hl l (mem_leaves_node.2 ⟨x, hm, h⟩)
    cases c with
    | and =>
      obtain ⟨c, hc⟩ := Conjunction.exists_prints_node hlength (fun x hm => (hx x hm).1)
        fun x hm => (ih x hm).2.2 (hx x hm).1
      exact ⟨⟨.one c, hc.tokens, hc.condition, hc.depth⟩, fun _ => ⟨c, hc⟩,
        fun h => absurd rfl h⟩
    | or =>
      obtain ⟨d, hd⟩ := Disjunction.exists_prints_node hlength (fun x hm => (hx x hm).1)
        fun x hm => (ih x hm).2.1 (hx x hm).1
      refine ⟨⟨d, hd⟩, fun h => absurd rfl h, fun _ => ⟨.group d, ?_, hd.condition, ?_⟩⟩
      · rw [Operand.tokens, hd.tokens]
        rfl
      · rw [Operand.depth, hd.depth]
        rfl

end Condition

theorem Query.exists_sentence {q : Query} (hq : q.isEmpty = false)
    (hf : ∀ x ∈ q.filter, x.isNormal = true ∧ ∀ l ∈ x.leaves, l.predicate.literals ≠ [])
    (ho : ∀ items ∈ q.order, items ≠ []) :
    ∃ s : Sentence, s.tokens = q.tokens ∧ s.query = q ∧ s.depth = q.groups := by
  have hterms : ∀ items ∈ q.order, ∃ terms : Run SortTerm,
      terms.toList.map SortTerm.item = items ∧ terms.tokens SortTerm.tokens =
        [Token.comma].intercalate (items.map SortItem.tokens) := by
    intro items hi
    obtain ⟨terms, hl, ht⟩ := @Run.exists_of_ne_nil _ SortTerm.tokens
      (items.map fun item => ⟨item.identifier, some item.direction⟩) (by simp [ho items hi])
    refine ⟨terms, ?_, ?_⟩
    · rw [hl, List.map_map]
      exact List.map_id items
    · rw [ht, List.map_map]
      rfl
  obtain ⟨filter, order⟩ := q
  cases filter with
  | none =>
    cases order with
    | none => cases hq
    | some items =>
      obtain ⟨terms, hi, ht⟩ := hterms items rfl
      refine ⟨.order terms, ?_, ?_, rfl⟩
      · rw [Sentence.tokens, Run.orderTokens, ht]
        rfl
      · rw [Sentence.query, hi]
  | some x =>
    obtain ⟨⟨d, hd⟩, -⟩ := Condition.exists_prints (hf x rfl).1 (hf x rfl).2
    cases order with
    | none =>
      refine ⟨.filter d, ?_, ?_, hd.depth⟩
      · rw [Sentence.tokens, hd.tokens]
        exact (List.append_nil _).symm
      · rw [Sentence.query, hd.condition]
    | some items =>
      obtain ⟨terms, hi, ht⟩ := hterms items rfl
      refine ⟨.both d terms, ?_, ?_, hd.depth⟩
      · rw [Sentence.tokens, Run.orderTokens, hd.tokens, ht]
        rfl
      · rw [Sentence.query, hd.condition, hi]

end FilterQuery
