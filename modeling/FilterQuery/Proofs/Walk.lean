import FilterQuery.Sentence.Stage

/-!
# Walks of the stages

A walk takes a stage through a list of tokens. What a stage has taken can be read off it
(`Stage.tokens`), and a walk adds to it exactly the tokens it goes over (`tokens_walk`), so a stage
that is a sentence at the end of the input has taken the tokens of that sentence
(`tokens_finish`). In the other direction, the tokens of a phrase take the stage in front of it to
the stage behind it as long as the groups they open are not too many (`walk_operand`,
`walk_disjunction`), and so the tokens of a sentence lead from the start to that sentence
(`walk_sentence`).
-/

namespace FilterQuery

/-- The most groups of a sentence that are open at one place. -/
def Sentence.depth : Sentence → Nat
  | .filter d => d.depth
  | .order _ => 0
  | .both d _ => d.depth

def tokensBefore {α : Type} (tokens : α → List Token) (separator : Token) : Option α → List Token
  | none => []
  | some x => tokens x ++ [separator]

/-- The tokens in front of an operand in its group. -/
def Frame.tokens (frame : Frame) : List Token :=
  tokensBefore Disjunction.tokens (.keyword .or) frame.conjunctions ++
    tokensBefore Conjunction.tokens (.keyword .and) frame.operands

/-- The tokens in front of a group, the parenthesis that opens it included, if `outer` are the
frames around it from the inside out. -/
def Frame.outerTokens : List Frame → List Token
  | [] => []
  | frame :: outer => outerTokens outer ++ frame.tokens ++ [.openParen]

def Site.tokens (site : Site) : List Token :=
  Frame.outerTokens site.outer ++ site.frame.tokens

/-- The tokens of a test for membership in front of its list. -/
def Test.memberTokens (identifier : String) (negated : Bool) : List Token :=
  .identifier identifier :: ((if negated then [.keyword .not] else []) ++ [.keyword .inList])

namespace Stage

/-- Takes tokens as long as they are not refused. -/
def walk (stage : Stage) : List Token → Except Expectation Stage
  | [] => .ok stage
  | t :: ts =>
    match stage.step t with
    | .ok next => next.walk ts
    | .error e => .error e

variable {stage next last : Stage} {t : Token}

theorem walk_cons_of_step (h : stage.step t = .ok next) (ts : List Token) :
    stage.walk (t :: ts) = next.walk ts := by
  rw [walk, h]

theorem walk_append_of_walk : ∀ {ts : List Token} {stage next : Stage},
    stage.walk ts = .ok next → ∀ us, stage.walk (ts ++ us) = next.walk us
  | [], stage, next, h, us => by
    cases h
    rfl
  | t :: ts, stage, next, h, us => by
    rw [walk] at h
    rw [List.cons_append, walk]
    split at h
    · exact walk_append_of_walk h us
    · cases h

theorem walk_cons_ok {ts : List Token} (h : stage.walk (t :: ts) = .ok last) :
    ∃ next, stage.step t = .ok next ∧ next.walk ts = .ok last := by
  rw [walk] at h
  split at h
  · exact ⟨_, ‹_›, h⟩
  · cases h

def tokens : Stage → List Token
  | .start => []
  | .operand site => site.tokens
  | .predicate site name => site.tokens ++ [.identifier name]
  | .inList site name => site.tokens ++ [.identifier name, .keyword .not]
  | .value site name op => site.tokens ++ [.identifier name, .comparison op]
  | .list site name negated => site.tokens ++ Test.memberTokens name negated
  | .element site name negated values =>
    site.tokens ++ Test.memberTokens name negated ++
      .openParen :: tokensBefore (Run.tokens fun v => [.literal v]) .comma values
  | .separator site name negated values =>
    site.tokens ++ Test.memberTokens name negated ++
      .openParen :: values.tokens (fun v => [.literal v])
  | .connective site c =>
    Frame.outerTokens site.outer ++
      tokensBefore Disjunction.tokens (.keyword .or) site.frame.conjunctions ++ c.tokens
  | .byKeys filter => (filter.map Disjunction.tokens).getD [] ++ [.keyword .order]
  | .sortKey filter terms =>
    (filter.map Disjunction.tokens).getD [] ++ [.keyword .order, .keyword .byKeys] ++
      tokensBefore (Run.tokens SortTerm.tokens) .comma terms
  | .sortEnd filter terms last =>
    (filter.map Disjunction.tokens).getD [] ++ [.keyword .order, .keyword .byKeys] ++
      tokensBefore (Run.tokens SortTerm.tokens) .comma terms ++ last.tokens

theorem tokens_disjunction_push (init : Option Disjunction) (c : Conjunction) :
    (Disjunction.push init c).tokens =
      tokensBefore Disjunction.tokens (.keyword .or) init ++ c.tokens := by
  cases init <;> simp [Disjunction.push, Disjunction.tokens, tokensBefore]

theorem tokens_conjunction_push (init : Option Conjunction) (o : Operand) :
    (Conjunction.push init o).tokens =
      tokensBefore Conjunction.tokens (.keyword .and) init ++ o.tokens := by
  cases init <;> simp [Conjunction.push, Conjunction.tokens, tokensBefore]

theorem tokens_run_push {α : Type} (tokens : α → List Token) (init : Option (Run α)) (x : α) :
    (Run.push init x).tokens tokens =
      tokensBefore (Run.tokens tokens) .comma init ++ tokens x := by
  cases init <;> simp [Run.push, Run.tokens, tokensBefore]

theorem tokens_behind (site : Site) (o : Operand) :
    (behind site o).tokens = site.tokens ++ o.tokens := by
  simp [behind, tokens, Site.add, tokens_conjunction_push, Site.tokens, Frame.tokens]

theorem tokens_step (h : stage.step t = .ok next) : next.tokens = stage.tokens ++ [t] := by
  have hopen : ∀ site : Site, openGroup site = .ok next →
      next.tokens = site.tokens ++ [.openParen] := by
    intro site h
    unfold openGroup at h
    split at h <;> cases h
    simp [tokens, Site.enter, Site.tokens, Frame.outerTokens, Frame.empty, Frame.tokens,
      tokensBefore]
  unfold step at h
  split at h
  case h_3 | h_5 => exact hopen _ h
  -- the steps that complete an operand
  case h_10 | h_14 | h_17 =>
    cases h
    rw [tokens_behind]
    simp [tokens, tokens_disjunction_push, Test.tokens, Test.memberTokens, Operand.tokens,
      Site.tokens, Frame.tokens, Frame.close, Frame.outerTokens]
  all_goals cases h
  all_goals simp [tokens, tokens_disjunction_push, tokens_run_push, Test.memberTokens, Site.tokens,
    Site.outermost, Site.afterAnd, Site.afterOr, Frame.tokens, Frame.empty, Frame.close,
    Frame.outerTokens, tokensBefore, SortTerm.tokens, Direction.token]

/-- A walk adds the tokens that it goes over. -/
theorem tokens_walk : ∀ {ts : List Token} {stage last : Stage}, stage.walk ts = .ok last →
    last.tokens = stage.tokens ++ ts
  | [], stage, last, h => by
    cases h
    simp
  | t :: ts, stage, last, h => by
    obtain ⟨next, hs, hw⟩ := walk_cons_ok h
    rw [tokens_walk hw, tokens_step hs, List.append_assoc, List.singleton_append]

/-- A stage that is a sentence has taken the tokens of that sentence. -/
theorem tokens_finish {s : Sentence} (h : stage.finish = .ok s) : s.tokens = stage.tokens := by
  unfold finish at h
  split at h
  · cases h
  · cases h
    simp [tokens, Sentence.tokens, Frame.close, tokens_disjunction_push, Frame.outerTokens]
  · rename_i filter terms last
    cases h
    cases filter <;>
      simp [tokens, Sentence.ofOrder, Sentence.tokens, Run.orderTokens, tokens_run_push]
  · cases h

theorem walk_values (site : Site) (name : String) (negated : Bool) : ∀ values : Run Literal,
    walk (.element site name negated none) (values.tokens fun v => [.literal v]) =
      .ok (.separator site name negated values)
  | .one v => rfl
  | .more init v => by
    rw [Run.tokens, walk_append_of_walk (walk_values site name negated init)]
    rfl

theorem walk_test (site : Site) : ∀ t : Test,
    walk (.operand site) t.tokens = .ok (behind site (.test t))
  | .compare name op v => rfl
  | .member name false values => by
    simp only [Test.tokens, Bool.false_eq_true, if_false, List.nil_append]
    rw [walk_cons_of_step rfl, walk_cons_of_step rfl, walk_cons_of_step rfl,
      walk_append_of_walk (walk_values site name false values)]
    rfl
  | .member name true values => by
    simp only [Test.tokens, if_true, List.cons_append, List.nil_append]
    rw [walk_cons_of_step rfl, walk_cons_of_step rfl, walk_cons_of_step rfl, walk_cons_of_step rfl,
      walk_append_of_walk (walk_values site name true values)]
    rfl

mutual

/-- Inside `outer`, the tokens of a disjunction lead behind its last conjunction. -/
theorem walk_disjunction : ∀ (d : Disjunction) (outer : List Frame),
    outer.length + d.depth ≤ maxNesting →
      ∃ frame c, walk (.operand ⟨.empty, outer⟩) d.tokens = .ok (.connective ⟨frame, outer⟩ c) ∧
        frame.close c = d
  | .one c, outer, h => by
    obtain ⟨operands, hw⟩ := walk_conjunction c none outer h
    exact ⟨_, c, hw, rfl⟩
  | .more init last, outer, h => by
    rw [Disjunction.depth] at h
    obtain ⟨frame, c, hw, hc⟩ := walk_disjunction init outer (by omega)
    obtain ⟨operands, hl⟩ := walk_conjunction last (some (frame.close c)) outer (by omega)
    refine ⟨⟨some (frame.close c), operands⟩, last, ?_, congrArg (Disjunction.more · last) hc⟩
    rw [Disjunction.tokens, walk_append_of_walk hw, walk_cons_of_step rfl]
    exact hl

/-- Behind `front`, the tokens of a conjunction lead behind its last operand. -/
theorem walk_conjunction : ∀ (c : Conjunction) (front : Option Disjunction) (outer : List Frame),
    outer.length + c.depth ≤ maxNesting →
      ∃ operands, walk (.operand ⟨⟨front, none⟩, outer⟩) c.tokens =
        .ok (.connective ⟨⟨front, operands⟩, outer⟩ c)
  | .one o, front, outer, h => ⟨none, walk_operand o ⟨⟨front, none⟩, outer⟩ h⟩
  | .more init last, front, outer, h => by
    rw [Conjunction.depth] at h
    obtain ⟨operands, hw⟩ := walk_conjunction init front outer (by omega)
    have hl := walk_operand last ⟨⟨front, some init⟩, outer⟩ (by simp only [Site.depth]; omega)
    refine ⟨some init, ?_⟩
    rw [Conjunction.tokens, walk_append_of_walk hw, walk_cons_of_step rfl]
    exact hl

theorem walk_operand : ∀ (o : Operand) (site : Site), site.depth + o.depth ≤ maxNesting →
    walk (.operand site) o.tokens = .ok (behind site o)
  | .test t, site, _ => walk_test site t
  | .group d, site, h => by
    rw [Operand.depth] at h
    have hopen : step (.operand site) .openParen = .ok (.operand site.enter) := by
      simp only [step, openGroup]
      rw [if_neg (by omega)]
    obtain ⟨frame, c, hw, rfl⟩ := walk_disjunction d (site.frame :: site.outer)
      (by simp only [List.length_cons, Site.depth] at h ⊢; omega)
    rw [Operand.tokens, walk_cons_of_step hopen, Site.enter, walk_append_of_walk hw]
    rfl

end

theorem walk_terms (filter : Option Disjunction) : ∀ terms : Run SortTerm,
    ∃ init last, walk (.sortKey filter none) (terms.tokens SortTerm.tokens) =
      .ok (.sortEnd filter init last) ∧ Run.push init last = terms
  | .one ⟨name, none⟩ => ⟨none, _, rfl, rfl⟩
  | .one ⟨name, some .ascending⟩ => ⟨none, _, rfl, rfl⟩
  | .one ⟨name, some .descending⟩ => ⟨none, _, rfl, rfl⟩
  | .more front ⟨name, direction⟩ => by
    obtain ⟨init, last, hw, rfl⟩ := walk_terms filter front
    refine ⟨some (.push init last), ⟨name, direction⟩, ?_, rfl⟩
    rw [Run.tokens, walk_append_of_walk hw, walk_cons_of_step rfl]
    rcases direction with _ | _ | _ <;> rfl

/-- At the start, a token other than ORDER is that of an operand. -/
theorem step_start (h : t ≠ .keyword .order) : start.step t = (operand .outermost).step t := by
  cases t with
  | keyword word => cases word <;> first | rfl | exact absurd rfl h
  | _ => rfl

end Stage

mutual

theorem Disjunction.tokens_eq_cons : ∀ d : Disjunction,
    ∃ t ts, d.tokens = t :: ts ∧ t ≠ .keyword .order
  | .one c => c.tokens_eq_cons
  | .more init last => by
    obtain ⟨t, ts, h, ht⟩ := init.tokens_eq_cons
    refine ⟨t, ts ++ .keyword .or :: last.tokens, ?_, ht⟩
    rw [Disjunction.tokens, h, List.cons_append]

theorem Conjunction.tokens_eq_cons : ∀ c : Conjunction,
    ∃ t ts, c.tokens = t :: ts ∧ t ≠ .keyword .order
  | .one o => o.tokens_eq_cons
  | .more init last => by
    obtain ⟨t, ts, h, ht⟩ := init.tokens_eq_cons
    refine ⟨t, ts ++ .keyword .and :: last.tokens, ?_, ht⟩
    rw [Conjunction.tokens, h, List.cons_append]

theorem Operand.tokens_eq_cons : ∀ o : Operand,
    ∃ t ts, o.tokens = t :: ts ∧ t ≠ .keyword .order
  | .test (.compare ..) => ⟨_, _, rfl, nofun⟩
  | .test (.member ..) => ⟨_, _, rfl, nofun⟩
  | .group _ => ⟨_, _, rfl, nofun⟩

end

namespace Stage

theorem walk_start_disjunction (d : Disjunction) (ts : List Token) :
    walk .start (d.tokens ++ ts) = walk (.operand .outermost) (d.tokens ++ ts) := by
  obtain ⟨t, us, hd, ht⟩ := d.tokens_eq_cons
  rw [hd, List.cons_append, walk, walk, step_start ht]

theorem walk_sentence (s : Sentence) (h : s.depth ≤ maxNesting) :
    ∃ stage, walk .start s.tokens = .ok stage ∧ stage.finish = .ok s := by
  cases s with
  | filter d =>
    obtain ⟨frame, c, hw, rfl⟩ := walk_disjunction d [] (by simpa [Sentence.depth] using h)
    refine ⟨.connective ⟨frame, []⟩ c, ?_, rfl⟩
    rw [Sentence.tokens, ← List.append_nil (Disjunction.tokens _), walk_start_disjunction,
      List.append_nil]
    exact hw
  | order terms =>
    obtain ⟨init, last, hw, rfl⟩ := walk_terms none terms
    refine ⟨.sortEnd none init last, ?_, rfl⟩
    rw [Sentence.tokens, Run.orderTokens, walk_cons_of_step rfl, walk_cons_of_step rfl]
    exact hw
  | both d terms =>
    obtain ⟨frame, c, hd, rfl⟩ := walk_disjunction d [] (by simpa [Sentence.depth] using h)
    obtain ⟨init, last, ht, rfl⟩ := walk_terms (some (frame.close c)) terms
    refine ⟨.sortEnd (some (frame.close c)) init last, ?_, rfl⟩
    rw [Sentence.tokens, walk_start_disjunction]
    have hd' : walk (.operand .outermost) (frame.close c).tokens =
        .ok (.connective ⟨frame, []⟩ c) := hd
    rw [walk_append_of_walk hd', Run.orderTokens, walk_cons_of_step rfl, walk_cons_of_step rfl]
    exact ht

end Stage

end FilterQuery
