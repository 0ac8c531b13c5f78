import FilterQuery.Proofs.Cutting
import FilterQuery.Proofs.Runs
import FilterQuery.Proofs.Writing
import FilterQuery.Session

/-!
# What a hook is asked

Rendering asks the hook about the leaves from left to right, once each, and about nothing else. If
every leaf gets a value, these values stand in the tree of the condition in place of the leaves
(`Condition.render_of_values`); the first panic ends the rendering (`Condition.render_of_panic`).
The tokens of a text in front of ORDER show the same leaves in the same order (`Shows`), each with
its identifier in front, so the calls can be read off the text (`parse_asks_leaves`).
-/

namespace FilterQuery

mutual

/-- The tree of a condition with a document in place of each leaf. -/
def Condition.fill (value : Call → Json) : Condition → Json
  | .leaf l => value l.call
  | .node c children => .single c.symbol (.arr (Condition.fillAll value children))

def Condition.fillAll (value : Call → Json) : List Condition → List Json
  | [] => []
  | x :: xs => x.fill value :: Condition.fillAll value xs

end

/-- What stands for a call: the value that the hook puts there, or else the document of the call. -/
def Hook.value (hook : Hook) (c : Call) : Json :=
  match hook c with
  | .replace value => value
  | _ => c.document

/-- The calls that the leaves of a condition make, from left to right. -/
def Condition.calls (x : Condition) : List Call :=
  x.leaves.map Leaf.call

/-- The calls that the leaves of a query make, from left to right. -/
def Query.calls (q : Query) : List Call :=
  (q.filter.map Condition.calls).getD []

section Log

variable {hook : Option Hook} {log : Call → List (Call × Reply)} {value : Call → Json}
  {cs ds : List Call} {c : Call} {message : String}

namespace Condition

theorem fillAll_eq_map (value : Call → Json) : ∀ xs : List Condition,
    fillAll value xs = xs.map (fill value)
  | [] => rfl
  | x :: xs => by rw [fillAll, fillAll_eq_map value xs, List.map_cons]

theorem calls_node (c : Connective) (xs : List Condition) :
    (node c xs).calls = xs.flatMap calls := by
  rw [calls, leaves, leavesOfAll_eq_flatMap, List.map_flatMap]
  rfl

theorem renderAll_of_values {xs : List Condition}
    (h : ∀ x ∈ xs, x.render hook = ⟨x.calls.flatMap log, .ok (x.fill value)⟩) :
    renderAll hook xs = ⟨(xs.flatMap calls).flatMap log, .ok (fillAll value xs)⟩ := by
  induction xs with
  | nil => rfl
  | cons x xs ih =>
    have hx := h x List.mem_cons_self
    have hxs := ih fun y hy => h y (List.mem_cons_of_mem x hy)
    simp [renderAll, fillAll, hx, hxs, Rendering.andThen, Rendering.map, Except.map]

/-- If every call has a value, so has the condition, and the log is that of all calls in order. -/
theorem render_of_values {x : Condition}
    (h : ∀ c ∈ x.calls, c.render hook = ⟨log c, .ok (value c)⟩) :
    x.render hook = ⟨x.calls.flatMap log, .ok (x.fill value)⟩ := by
  induction x using Condition.induction with
  | leaf l => simpa [render, fill, calls, leaves] using h l.call (by simp [calls, leaves])
  | node c xs ih =>
    rw [calls_node] at h ⊢
    have hxs := renderAll_of_values fun x hx =>
      ih x hx fun c hc => h c (List.mem_flatMap.2 ⟨x, hx, hc⟩)
    simp [render, hxs, fill, Rendering.map, Except.map]

/-- Without a hook nothing is asked, and the documents of the calls stand for the leaves. -/
theorem render_none (x : Condition) : x.render none = .done (x.fill Call.document) := by
  have h := @render_of_values none (fun _ => []) Call.document x fun _ _ => rfl
  rwa [List.flatMap_eq_nil_iff.2 fun _ _ => rfl] at h

end Condition

namespace Query

variable {q : Query}

theorem render_of_values (h : ∀ c ∈ q.calls, c.render hook = ⟨log c, .ok (value c)⟩) :
    q.render hook = ⟨q.calls.flatMap log,
      .ok ⟨q.filter.map (Condition.fill value), q.order.map SortItem.directions⟩⟩ := by
  obtain ⟨_ | x, order⟩ := q
  · rfl
  · have hx : x.render hook = _ := Condition.render_of_values h
    simp [render, hx, calls, Rendering.map, Except.map]

theorem render_none (q : Query) : q.render none = .done
    ⟨q.filter.map (Condition.fill Call.document), q.order.map SortItem.directions⟩ := by
  obtain ⟨_ | x, order⟩ := q
  · rfl
  · simp only [render, x.render_none]
    rfl

theorem order_of_render {d : Document} (h : (q.render hook).outcome = .ok d) :
    d.order = q.order.map SortItem.directions := by
  obtain ⟨_ | x, order⟩ := q
  · cases h
    rfl
  · unfold render at h
    rcases hx : (x.render hook).outcome with message | value <;>
      simp [Rendering.map, Except.map, hx] at h
    rw [← h]

end Query

theorem Call.render_of_hook {hook : Hook} (h : ∀ message, hook c ≠ .panic message) :
    c.render (some hook) = ⟨[(c, hook c)], .ok (hook.value c)⟩ := by
  unfold Call.render Hook.value
  rcases hc : hook c with _ | value | message
  · simp [hc, Reply.outcome]
  · simp [hc, Reply.outcome]
  · exact absurd hc (h message)

end Log

def Token.identifier? : Token → Option String
  | .identifier name => some name
  | _ => none

/-- The tokens in front of ORDER and of the end of the input. -/
def filterTokens (lexemes : List Lexeme) : List Token :=
  (lexemes.map Lexeme.token).takeWhile fun t => t ≠ .keyword .order && t ≠ .endOfInput

/-- The tokens show the calls: from left to right they are those of tests, each of which makes a
call, with connectives and with parentheses of groups around them. -/
inductive Shows : List Token → List Call → Prop
  | done : Shows [] []
  | around {t : Token} {ts : List Token} {cs : List Call}
      (ht : t ∈ [.keyword .and, .keyword .or, .openParen, .closeParen]) (h : Shows ts cs) :
      Shows (t :: ts) cs
  | test (t : Test) {ts : List Token} {cs : List Call} (h : Shows ts cs) :
      Shows (t.tokens ++ ts) (t.leaf.call :: cs)

/-- A test begins with its identifier, and no other one follows in it. -/
theorem Test.tokens_eq_cons (t : Test) : ∃ ts, t.tokens = .identifier t.leaf.identifier :: ts ∧
    ∀ u ∈ ts, u.identifier? = none ∧ u ≠ .keyword .order ∧ u ≠ .endOfInput := by
  cases t with
  | compare name op v => exact ⟨_, rfl, by simp [Token.identifier?]⟩
  | member name negated values =>
    refine ⟨_, rfl, fun u hu => ?_⟩
    have hvalues : ∀ u ∈ values.tokens (fun v => [.literal v]),
        u.identifier? = none ∧ u ≠ .keyword .order ∧ u ≠ .endOfInput := by
      rw [Run.tokens_eq]
      refine forall_mem_intercalate (by simp [Token.identifier?]) fun ts hts t ht => ?_
      obtain ⟨v, -, rfl⟩ := List.mem_map.1 hts
      rw [List.mem_singleton.1 ht]
      simp [Token.identifier?]
    simp only [List.mem_append, List.mem_cons, List.not_mem_nil, or_false] at hu
    rcases hu with hu | rfl | rfl | hu | rfl
    · cases negated <;> simp_all [Token.identifier?]
    · simp [Token.identifier?]
    · simp [Token.identifier?]
    · exact hvalues u hu
    · simp [Token.identifier?]

theorem Leaf.identifier_call (l : Leaf) : l.call.identifier = l.identifier := by
  obtain ⟨name, _ | _⟩ := l <;> rfl

namespace Shows

variable {ts us : List Token} {cs ds : List Call}

theorem append (h : Shows ts cs) (hu : Shows us ds) : Shows (ts ++ us) (cs ++ ds) := by
  induction h with
  | done => exact hu
  | around ht _ ih => exact .around ht ih
  | test t _ ih =>
    rw [List.append_assoc]
    exact .test t ih

theorem intercalate {α : Type} {f : α → List Token} {g : α → List Call} {s : Token}
    (hs : s ∈ [.keyword .and, .keyword .or, .openParen, .closeParen]) {xs : List α}
    (h : ∀ x ∈ xs, Shows (f x) (g x)) : Shows ([s].intercalate (xs.map f)) (xs.flatMap g) := by
  have hbehind : ∀ ys : List α, (∀ y ∈ ys, Shows (f y) (g y)) →
      Shows (ys.flatMap fun y => s :: f y) (ys.flatMap g) := by
    intro ys hys
    induction ys with
    | nil => exact .done
    | cons y ys ih =>
      have hy := Shows.around hs (hys y List.mem_cons_self)
      exact hy.append (ih fun z hz => hys z (List.mem_cons_of_mem y hz))
  cases xs with
  | nil => exact .done
  | cons x xs =>
    rw [List.map_cons, intercalate_cons, List.flatMap_map, List.flatMap_cons]
    exact (h x List.mem_cons_self).append
      (hbehind xs fun y hy => h y (List.mem_cons_of_mem x hy))

theorem ne_of_mem (h : Shows ts cs) {t : Token} (ht : t ∈ ts) :
    t ≠ .keyword .order ∧ t ≠ .endOfInput := by
  induction h with
  | done => cases ht
  | around hs _ ih =>
    rcases List.mem_cons.1 ht with rfl | ht
    · constructor <;> rintro rfl <;> simp at hs
    · exact ih ht
  | test u _ ih =>
    obtain ⟨us, htokens, hus⟩ := u.tokens_eq_cons
    rw [htokens] at ht
    rcases List.mem_append.1 ht with ht | ht
    · rcases List.mem_cons.1 ht with rfl | ht
      · exact ⟨nofun, nofun⟩
      · exact (hus t ht).2
    · exact ih ht

/-- Tokens that show calls go on until ORDER or the end of the input comes. -/
theorem filterTokens_eq (h : Shows ts cs) {lexemes : List Lexeme} {t : Token}
    (hl : lexemes.map Lexeme.token = ts ++ t :: us)
    (ht : t = .keyword .order ∨ t = .endOfInput) : filterTokens lexemes = ts := by
  have hall : ∀ u ∈ ts, (u ≠ .keyword .order && u ≠ .endOfInput) = true := fun u hu => by
    simpa using h.ne_of_mem hu
  rw [filterTokens, hl, List.takeWhile_append_of_pos hall]
  rcases ht with rfl | rfl <;> simp

end Shows

theorem Condition.Joins.calls_eq {c : Connective} {xs : List Condition} {y : Condition}
    (h : Joins c xs y) : y.calls = xs.flatMap calls := by
  rw [calls, h.leaves_eq, List.map_flatMap]
  rfl

/-- The tokens of a disjunction show the calls of its condition. -/
theorem Disjunction.shows (d : Disjunction) : Shows d.tokens d.condition.calls := by
  induction d using Disjunction.induction with
  | groups d ih =>
    rw [d.tokens_eq, d.joins.calls_eq, List.flatMap_map]
    refine Shows.intercalate (by simp) fun c hc => ?_
    rw [c.tokens_eq, c.joins.calls_eq, List.flatMap_map]
    refine Shows.intercalate (by simp) fun o ho => ?_
    cases o with
    | test t =>
      have htest := Shows.test t .done
      rwa [List.append_nil] at htest
    | group e =>
      have hclose : Shows [.closeParen] [] := .around (by simp) .done
      have hgroup := Shows.around (t := .openParen) (by simp) ((ih c hc e ho).append hclose)
      rwa [List.append_nil] at hgroup

end FilterQuery
