import FilterQuery.Proofs.Walk

/-!
# Groups that are open

Which parentheses of a token sequence are open at a point can be told from the tokens in front of
it: a parenthesis behind IN opens a list, any other one opens a group, and a parenthesis closes the
list if one is open. Counted like this, the most groups of a sentence that are open at a point are
its depth (`mostOpen_tokens`), and a walk from the start keeps the number of its open groups
(`nesting_walk`), which is never more than the limit (`mostOpen_le_of_walk`). So the sentences that
can be reached are those whose tokens keep to the limit (`reaches_iff`).
-/

namespace FilterQuery

/-- What is open at a point of a token sequence: so many groups, and perhaps a list of values. -/
structure Nesting where
  groups : Nat
  inList : Bool
  behindIn : Bool
  deriving DecidableEq

namespace Nesting

/-- In front of all tokens, and wherever `groups` groups are open and a phrase may begin. -/
def between (groups : Nat) : Nesting := ⟨groups, false, false⟩

/-- What is open behind one more token. -/
def next (n : Nesting) : Token → Nesting
  | .openParen => if n.behindIn then ⟨n.groups, true, false⟩ else ⟨n.groups + 1, n.inList, false⟩
  | .closeParen => if n.inList then ⟨n.groups, false, false⟩ else ⟨n.groups - 1, false, false⟩
  | .keyword .inList => ⟨n.groups, n.inList, true⟩
  | _ => ⟨n.groups, n.inList, false⟩

def behind (n : Nesting) (ts : List Token) : Nesting :=
  ts.foldl next n

/-- The most groups that are open at a point of `ts`. -/
def most (n : Nesting) : List Token → Nat
  | [] => n.groups
  | t :: ts => max n.groups ((n.next t).most ts)

theorem behind_append (n : Nesting) (ts us : List Token) :
    n.behind (ts ++ us) = (n.behind ts).behind us :=
  List.foldl_append

theorem groups_le_most (n : Nesting) : ∀ ts : List Token, n.groups ≤ n.most ts
  | [] => Nat.le_refl _
  | _ :: _ => Nat.le_max_left _ _

theorem most_append (n : Nesting) : ∀ ts us : List Token,
    n.most (ts ++ us) = max (n.most ts) ((n.behind ts).most us)
  | [], us => (Nat.max_eq_right (n.groups_le_most us)).symm
  | t :: ts, us => by
    rw [List.cons_append, most, most_append (n.next t) ts us, most, Nat.max_assoc]
    rfl

end Nesting

/-- The most groups that are open at a point of a token sequence. -/
def mostOpen (ts : List Token) : Nat :=
  (Nesting.between 0).most ts

namespace Nesting

theorem behind_values (g : Nat) : ∀ values : Run Literal,
    behind ⟨g, true, false⟩ (values.tokens fun v => [.literal v]) = ⟨g, true, false⟩
  | .one v => rfl
  | .more init v => by
    rw [Run.tokens, behind_append, behind_values g init]
    rfl

theorem most_values (g : Nat) : ∀ values : Run Literal,
    most ⟨g, true, false⟩ (values.tokens fun v => [.literal v]) = g
  | .one v => Nat.max_self g
  | .more init v => by
    rw [Run.tokens, most_append, behind_values g init, most_values g init]
    simp [most, next]

theorem behind_test (g : Nat) : ∀ t : Test, (between g).behind t.tokens = between g
  | .compare name op v => rfl
  | .member name negated values => by
    have hv := behind_values g values
    cases negated <;> simp_all [Test.tokens, behind, between, next, List.foldl_append]

theorem most_test (g : Nat) : ∀ t : Test, (between g).most t.tokens = g
  | .compare name op v => by simp [Test.tokens, most, between, next]
  | .member name negated values => by
    have hv := behind_values g values
    have hm := most_values g values
    cases negated <;> simp_all [Test.tokens, most, between, next, most_append]

mutual

theorem behind_disjunction (g : Nat) : ∀ d : Disjunction,
    (between g).behind d.tokens = between g
  | .one c => behind_conjunction g c
  | .more init last => by
    rw [Disjunction.tokens, behind_append, behind_disjunction g init]
    exact behind_conjunction g last

theorem behind_conjunction (g : Nat) : ∀ c : Conjunction,
    (between g).behind c.tokens = between g
  | .one o => behind_operand g o
  | .more init last => by
    rw [Conjunction.tokens, behind_append, behind_conjunction g init]
    exact behind_operand g last

theorem behind_operand (g : Nat) : ∀ o : Operand, (between g).behind o.tokens = between g
  | .test t => behind_test g t
  | .group d => by
    have hd : (between (g + 1)).behind d.tokens = between (g + 1) := behind_disjunction (g + 1) d
    rw [Operand.tokens, ← List.singleton_append, behind_append, behind_append]
    exact congrArg (Nesting.behind · [.closeParen]) hd

end

mutual

/-- The points of a disjunction add its depth to the groups that are open in front of it. -/
theorem most_disjunction (g : Nat) : ∀ d : Disjunction, (between g).most d.tokens = g + d.depth
  | .one c => most_conjunction g c
  | .more init last => by
    have hl : (between g).most last.tokens = g + last.depth := most_conjunction g last
    rw [Disjunction.tokens, most_append, behind_disjunction, most_disjunction g init, most,
      show (between g).next (.keyword .or) = between g from rfl, hl, Disjunction.depth]
    simp only [between]
    omega

theorem most_conjunction (g : Nat) : ∀ c : Conjunction, (between g).most c.tokens = g + c.depth
  | .one o => most_operand g o
  | .more init last => by
    have hl : (between g).most last.tokens = g + last.depth := most_operand g last
    rw [Conjunction.tokens, most_append, behind_conjunction, most_conjunction g init, most,
      show (between g).next (.keyword .and) = between g from rfl, hl, Conjunction.depth]
    simp only [between]
    omega

theorem most_operand (g : Nat) : ∀ o : Operand, (between g).most o.tokens = g + o.depth
  | .test t => most_test g t
  | .group d => by
    have hd : (between (g + 1)).most d.tokens = g + 1 + d.depth := most_disjunction (g + 1) d
    rw [Operand.tokens, most, show (between g).next .openParen = between (g + 1) from rfl,
      most_append, hd, behind_disjunction, Operand.depth]
    simp only [most, between, next, Bool.false_eq_true, if_false]
    omega

end

theorem most_terms (g : Nat) : ∀ terms : Run SortTerm,
    (between g).behind (terms.tokens SortTerm.tokens) = between g ∧
      (between g).most (terms.tokens SortTerm.tokens) = g := by
  have hterm : ∀ t : SortTerm, (between g).behind t.tokens = between g ∧
      (between g).most t.tokens = g := by
    intro t
    obtain ⟨name, _ | _ | _⟩ := t <;>
      simp [SortTerm.tokens, Direction.token, behind, most, next, between]
  intro terms
  induction terms with
  | one first => exact hterm first
  | more init last ih =>
    obtain ⟨hb, hm⟩ := hterm last
    obtain ⟨ihb, ihm⟩ := ih
    rw [Run.tokens, behind_append, most_append, ihb, ihm]
    have hg : (between g).most (.comma :: last.tokens) = max g ((between g).most last.tokens) := rfl
    exact ⟨hb, by rw [hg, hm, Nat.max_self, Nat.max_self]⟩

end Nesting

/-- The most groups that are open at a point of the tokens of a sentence are its depth. -/
theorem mostOpen_tokens (s : Sentence) : mostOpen s.tokens = s.depth := by
  have horder : ∀ terms : Run SortTerm, (Nesting.between 0).most terms.orderTokens = 0 := by
    intro terms
    have ht := (Nesting.most_terms 0 terms).2
    simpa [Run.orderTokens, Nesting.most, Nesting.next, Nesting.between] using ht
  cases s with
  | filter d => exact (Nesting.most_disjunction 0 d).trans (Nat.zero_add _)
  | order terms => exact horder terms
  | both d terms =>
    rw [mostOpen, Sentence.tokens, Nesting.most_append, Nesting.behind_disjunction, horder,
      Nesting.most_disjunction, Sentence.depth]
    omega

-- the parentheses of a list open no group
example : mostOpen [.identifier "a", .keyword .inList, .openParen, .literal .null, .closeParen] =
    0 := by decide

namespace Stage

/-- What is open behind the tokens that lead to a stage. -/
def nesting : Stage → Nesting
  | .start => .between 0
  | .operand site => .between site.depth
  | .predicate site _ => .between site.depth
  | .inList site _ => .between site.depth
  | .value site _ _ => .between site.depth
  | .list site _ _ => ⟨site.depth, false, true⟩
  | .element site _ _ _ => ⟨site.depth, true, false⟩
  | .separator site _ _ _ => ⟨site.depth, true, false⟩
  | .connective site _ => .between site.depth
  | .byKeys _ => .between 0
  | .sortKey .. => .between 0
  | .sortEnd .. => .between 0

/-- A step opens and closes what its token does, and keeps to the limit. -/
theorem nesting_step {stage next : Stage} {t : Token} (h : stage.step t = .ok next)
    (hn : stage.nesting.groups ≤ maxNesting) :
    next.nesting = stage.nesting.next t ∧ next.nesting.groups ≤ maxNesting := by
  have hopen : ∀ site : Site, site.depth ≤ maxNesting → openGroup site = .ok next →
      next.nesting = .between (site.depth + 1) ∧ next.nesting.groups ≤ maxNesting := by
    intro site hs h
    unfold openGroup at h
    split at h
    · cases h
    · cases h
      exact ⟨rfl, by simp only [nesting, Site.enter, Site.depth, Nesting.between] at *; grind⟩
  unfold step at h
  split at h
  case h_3 => exact hopen .outermost hn h
  case h_5 => exact hopen _ hn h
  all_goals cases h
  all_goals simp_all [nesting, Nesting.next, Nesting.between, behind, Site.depth, Site.outermost,
    Site.afterAnd, Site.afterOr]
  all_goals omega

/-- A walk opens and closes what its tokens do, and keeps to the limit at every point. -/
theorem nesting_walk : ∀ {ts : List Token} {stage last : Stage}, stage.walk ts = .ok last →
    stage.nesting.groups ≤ maxNesting →
      last.nesting = stage.nesting.behind ts ∧ stage.nesting.most ts ≤ maxNesting
  | [], stage, last, h, hn => by
    cases h
    exact ⟨rfl, hn⟩
  | t :: ts, stage, last, h, hn => by
    obtain ⟨next, hs, hw⟩ := walk_cons_ok h
    obtain ⟨heq, hle⟩ := nesting_step hs hn
    obtain ⟨hlast, hmost⟩ := nesting_walk hw hle
    rw [heq] at hlast hmost
    exact ⟨hlast, Nat.max_le.2 ⟨hn, hmost⟩⟩

theorem mostOpen_le_of_walk {ts : List Token} {last : Stage} (h : walk .start ts = .ok last) :
    mostOpen ts ≤ maxNesting :=
  (nesting_walk h (Nat.zero_le _)).2

/-- The tokens that lead to a sentence are its own, and those of every sentence that keeps to the
limit lead to it. -/
theorem reaches_iff {ts : List Token} {s : Sentence} :
    (∃ stage, walk .start ts = .ok stage ∧ stage.finish = .ok s) ↔
      s.tokens = ts ∧ mostOpen ts ≤ maxNesting := by
  refine ⟨fun h => ?_, fun h => ?_⟩
  · obtain ⟨stage, hw, hf⟩ := h
    have ht : s.tokens = ts := by rw [tokens_finish hf, tokens_walk hw, tokens, List.nil_append]
    exact ⟨ht, mostOpen_le_of_walk hw⟩
  · obtain ⟨rfl, hm⟩ := h
    exact walk_sentence s (mostOpen_tokens s ▸ hm)

end Stage

end FilterQuery
