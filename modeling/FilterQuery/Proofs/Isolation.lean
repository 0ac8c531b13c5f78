import FilterQuery.Session
import FilterQuery.Proofs.Acceptance
import FilterQuery.Proofs.Refusal
import Mathlib.Data.List.Induction

/-!
# What an answer depends on

A session has one parser for each creation, with the hook that was installed on it last, and one
query for each text that was stored (`Session.getElem?_parsers_run`,
`Session.getElem?_queries_run`). Both follow from what one more request does, by induction on the
requests from the last one. So an answer is told by that hook and the text, or by that hook and the
stored query. Two sessions that look alike to a parser stay so, also if only one of them gets the
requests that are not about it (`Session.Alike.run`).
-/

namespace FilterQuery

namespace Session

def Request.isCreate : Request → Bool
  | .create _ => true
  | _ => false

/-- Whether a request is of interest for the `n`-th parser: it counts parsers, installs its hook or
stores a query. -/
def Request.concerns (n : Nat) : Request → Bool
  | .create _ => true
  | .setHook parser _ => parser = n
  | .parseQuery _ _ => true
  | .parse _ _ => false
  | .render _ _ => false

/-- The parsers as a request leaves them; a hook for a parser that does not exist changes none. -/
def Request.install (parsers : List Parser) : Request → List Parser
  | .create hook => parsers ++ [⟨hook⟩]
  | .setHook n hook => parsers.set n ⟨hook⟩
  | .parse _ _ => parsers
  | .parseQuery _ _ => parsers
  | .render _ _ => parsers

/-- The query that a request stores if there are `count` parsers. -/
def Request.query? (count : Nat) : Request → Option Query
  | .parseQuery n text => if n < count then (Query.ofText text).toOption else none
  | _ => none

/-- How many parsers are made. -/
def made (requests : List Request) : Nat :=
  requests.countP Request.isCreate

/-- The requests make the `n`-th parser, and `hook` is what was installed on it last: at its making
or later. Taking the hook away counts as installing none. -/
def Leaves (requests : List Request) (n : Nat) (hook : Option Hook) : Prop :=
  ∃ front r back, requests = front ++ r :: back ∧
    (r = .create hook ∧ made front = n ∨ r = .setHook n hook ∧ n < made front) ∧
      ∀ h, .setHook n h ∉ back

/-- Among the requests is one to read `text` with some parser, and its answer was that `q` is stored
as the `m`-th query. -/
def Stores (requests : List Request) (m : Nat) (text : String) (q : Query) : Prop :=
  ∃ p, (Request.parseQuery p text, Answer.stored (.ok (m, q))) ∈
    requests.zip (empty.run requests).2

/-- The answer to a request that stands between others. -/
def answer (before : List Request) (r : Request) (after : List Request) : Option Answer :=
  (empty.run (before ++ r :: after)).2[before.length]?

theorem run_append (s : Session) (xs ys : List Request) :
    s.run (xs ++ ys) =
      (((s.run xs).1.run ys).1, (s.run xs).2 ++ ((s.run xs).1.run ys).2) := by
  induction xs generalizing s with
  | nil => rfl
  | cons r xs ih => simp [run, ih]

theorem run_concat (s : Session) (requests : List Request) (r : Request) :
    s.run (requests ++ [r]) =
      (((s.run requests).1.step r).1, (s.run requests).2 ++ [((s.run requests).1.step r).2]) :=
  s.run_append requests [r]

theorem length_answers (s : Session) (requests : List Request) :
    (s.run requests).2.length = requests.length := by
  induction requests generalizing s with
  | nil => rfl
  | cons r requests ih => simp [run, ih]

/-- What comes after a request does not change its answer. -/
theorem answer_eq (before : List Request) (r : Request) (after : List Request) :
    answer before r after = some ((empty.run before).1.step r).2 := by
  rw [answer, run_append]
  simp [run, length_answers]

section Request

variable {requests : List Request} {r : Request} {q : Query} {hook : Option Hook} {n m : Nat}

theorem made_concat (requests : List Request) (r : Request) :
    made (requests ++ [r]) = made requests + if r.isCreate then 1 else 0 := by
  simp [made, List.countP_append, List.countP_singleton]

theorem not_leaves_nil : ¬Leaves [] n hook := by
  rintro ⟨front, r, back, h, -⟩
  simp at h

theorem leaves_concat :
    Leaves (requests ++ [r]) n hook ↔
      r = .create hook ∧ made requests = n ∨ r = .setHook n hook ∧ n < made requests ∨
        Leaves requests n hook ∧ ∀ h, r ≠ .setHook n h := by
  constructor
  · rintro ⟨front, w, back, heq, hw, hback⟩
    rcases List.eq_nil_or_concat' back with rfl | ⟨back, r', rfl⟩
    · obtain ⟨rfl, hr⟩ := List.append_inj' heq rfl
      obtain rfl := List.singleton_inj.1 hr
      exact hw.imp_right .inl
    · rw [← List.cons_append, ← List.append_assoc] at heq
      obtain ⟨hfront, hr⟩ := List.append_inj' heq rfl
      obtain rfl := List.singleton_inj.1 hr
      exact .inr (.inr ⟨⟨front, w, back, hfront, hw, fun h hm => hback h (by simp [hm])⟩,
        fun h hr => hback h (by simp [hr])⟩)
  · rintro (⟨rfl, hn⟩ | ⟨rfl, hn⟩ | ⟨⟨front, w, back, rfl, hw, hback⟩, hr⟩)
    · exact ⟨requests, _, [], rfl, .inl ⟨rfl, hn⟩, nofun⟩
    · exact ⟨requests, _, [], rfl, .inr ⟨rfl, hn⟩, nofun⟩
    · refine ⟨front, w, back ++ [r], by simp, hw, fun h hm => ?_⟩
      rcases List.mem_append.1 hm with hm | hm
      · exact hback h hm
      · exact hr h (List.mem_singleton.1 hm).symm

theorem stores_concat {text : String} : Stores (requests ++ [r]) m text q ↔
      Stores requests m text q ∨ ∃ p, r = .parseQuery p text ∧
        ((empty.run requests).1.step r).2 = .stored (.ok (m, q)) := by
  have hzip : (requests ++ [r]).zip (empty.run (requests ++ [r])).2 =
      requests.zip (empty.run requests).2 ++ [(r, ((empty.run requests).1.step r).2)] := by
    rw [run_concat, List.zip_append (length_answers _ _).symm]
    rfl
  simp only [Stores, hzip, List.mem_append, List.mem_singleton, Prod.mk.injEq, exists_or]
  simp only [eq_comm]

/-- All that a request does to a session: it leaves parsers, and stores a query at most. -/
theorem step_fst (s : Session) (r : Request) : (s.step r).1 =
    ⟨r.install s.parsers, s.queries ++ (r.query? s.parsers.length).toList⟩ := by
  cases r with
  | create hook => simp [step, Request.install, Request.query?]
  | setHook n hook =>
    by_cases hn : n < s.parsers.length
    · simp [step, hn, Request.install, Request.query?]
    · have hset := List.set_eq_of_length_le (a := ⟨hook⟩) (Nat.le_of_not_lt hn)
      simp [step, hn, Request.install, hset, Request.query?]
  | parse n text =>
    cases h : s.parsers[n]? <;> simp [step, h, Request.install, Request.query?]
  | parseQuery n text =>
    by_cases hn : n < s.parsers.length
    · cases hq : Query.ofText text <;>
        simp [step, hn, hq, Request.install, Request.query?, Except.toOption]
    · simp [step, hn, Request.install, Request.query?]
  | render n m =>
    cases h : s.parsers[n]? <;> cases hq : s.queries[m]? <;>
      simp [step, h, hq, Request.install, Request.query?]

/-- An answer tells of a query just when one is stored, and gives its number. -/
theorem stored_step_iff (s : Session) :
    (s.step r).2 = .stored (.ok (m, q)) ↔
      s.queries.length = m ∧ r.query? s.parsers.length = some q := by
  cases r with
  | create hook => simp [step, Request.query?]
  | setHook n hook => by_cases hn : n < s.parsers.length <;> simp [step, hn, Request.query?]
  | parse n text => cases h : s.parsers[n]? <;> simp [step, h, Request.query?]
  | parseQuery n text =>
    by_cases hn : n < s.parsers.length
    · cases hq : Query.ofText text <;> simp [step, hn, hq, Request.query?, Except.toOption]
    · simp [step, hn, Request.query?]
  | render n m =>
    cases h : s.parsers[n]? <;> cases hq : s.queries[m]? <;> simp [step, h, hq, Request.query?]

/-- Only a reading stores, and what it stores is the query of its text. -/
theorem Request.query?_eq_some {count : Nat} (h : r.query? count = some q) :
    ∃ n text, r = .parseQuery n text ∧ Query.ofText text = .ok q := by
  cases r with
  | parseQuery n text =>
    refine ⟨n, text, rfl, ?_⟩
    by_cases hn : n < count
    · rcases hq : Query.ofText text with e | q' <;>
        simp_all [Request.query?, Except.toOption]
    · simp [Request.query?, hn] at h
  | create | setHook | parse | render => cases h

end Request

section Leaves

variable {n m : Nat} {q : Query}

theorem getElem?_concat_eq_some {α : Type} {xs : List α} {x y : α} :
    (xs ++ [x])[n]? = some y ↔ x = y ∧ xs.length = n ∨ xs[n]? = some y := by
  rcases Nat.lt_trichotomy n xs.length with hn | rfl | hn
  · simp [List.getElem?_append_left hn, Nat.ne_of_gt hn]
  · simp
  · have hle : (xs ++ [x]).length ≤ n := by simpa using Nat.succ_le_of_lt hn
    simp [List.getElem?_eq_none hle, List.getElem?_eq_none (Nat.le_of_lt hn), Nat.ne_of_lt hn]

theorem length_parsers_run (requests : List Request) :
    (empty.run requests).1.parsers.length = made requests := by
  induction requests using List.reverseRecOn with
  | nil => rfl
  | append_singleton requests r ih =>
    rw [run_concat, step_fst, made_concat, ← ih]
    cases r <;> simp [Request.install, Request.isCreate]

/-- Each parser has the hook that was installed on it last. -/
theorem getElem?_parsers_run (requests : List Request) {p : Parser} :
    (empty.run requests).1.parsers[n]? = some p ↔ Leaves requests n p.hook := by
  induction requests using List.reverseRecOn with
  | nil => simp [run, empty, not_leaves_nil]
  | append_singleton requests r ih =>
    have hmade := length_parsers_run requests
    rw [run_concat, step_fst, leaves_concat, ← ih, ← hmade]
    obtain ⟨hook⟩ := p
    cases r with
    | create h => simp [Request.install, getElem?_concat_eq_some]
    | setHook k h =>
      by_cases hk : k = n
      · subst hk
        simp [Request.install, List.getElem?_set, and_comm]
      · simp [Request.install, hk]
    | parse k text | parseQuery k text | render k m => simp [Request.install]

/-- The stored queries are those that an answer told of, under its number. -/
theorem getElem?_queries_run (requests : List Request) :
    (empty.run requests).1.queries[m]? = some q ↔ ∃ text, Stores requests m text q := by
  induction requests using List.reverseRecOn with
  | nil => simp [run, empty, Stores]
  | append_singleton requests r ih =>
    simp only [run_concat, step_fst, stores_concat, stored_step_iff, exists_or, ← ih]
    rcases hr : r.query? (empty.run requests).1.parsers.length with _ | q'
    · simp
    · obtain ⟨n, text, rfl, -⟩ := Request.query?_eq_some hr
      simp [getElem?_concat_eq_some, and_comm, or_comm]

/-- A stored query is the one that its text has for any reader. -/
theorem Stores.ofText {requests : List Request} {text : String} (h : Stores requests m text q) :
    Query.ofText text = .ok q := by
  induction requests using List.reverseRecOn with
  | nil => simp [Stores] at h
  | append_singleton requests r ih =>
    rcases stores_concat.1 h with h | ⟨p, rfl, hstored⟩
    · exact ih h
    · obtain ⟨n, text', hr, hq⟩ := Request.query?_eq_some ((stored_step_iff _).1 hstored).2
      cases hr
      exact hq

end Leaves

/-- Two sessions with as many parsers, of which the `n`-th have one hook, and with one store. -/
structure Alike (n : Nat) (s t : Session) : Prop where
  count : s.parsers.length = t.parsers.length
  parser : s.parsers[n]? = t.parsers[n]?
  queries : s.queries = t.queries

namespace Alike

variable {n : Nat} {s t : Session}

theorem parse (h : Alike n s t) (text : String) :
    (s.step (.parse n text)).2 = (t.step (.parse n text)).2 := by
  simp only [step, h.parser]
  cases t.parsers[n]? <;> rfl

theorem render (h : Alike n s t) (m : Nat) :
    (s.step (.render n m)).2 = (t.step (.render n m)).2 := by
  simp only [step, h.parser, h.queries]
  cases t.parsers[n]? <;> cases t.queries[m]? <;> rfl

theorem step (h : Alike n s t) (r : Request) : Alike n (s.step r).1 (t.step r).1 := by
  obtain ⟨hcount, hparser, hqueries⟩ := h
  rw [step_fst, step_fst]
  refine ⟨?_, ?_, by rw [hcount, hqueries]⟩
  · cases r <;> simp [Request.install, hcount]
  · cases r with
    | create hook => simp [Request.install, List.getElem?_append, hcount, hparser]
    | setHook k hook => simp [Request.install, List.getElem?_set, hcount, hparser]
    | parse | parseQuery | render => exact hparser

theorem skip (h : Alike n s t) {r : Request} (hr : r.concerns n = false) :
    Alike n (s.step r).1 t := by
  obtain ⟨hcount, hparser, hqueries⟩ := h
  rw [step_fst]
  cases r with
  | create | parseQuery => cases hr
  | setHook k hook =>
    have hk : k ≠ n := by simpa [Request.concerns] using hr
    exact ⟨by simp [Request.install, hcount], by simp [Request.install, hk, hparser],
      by simp [Request.query?, hqueries]⟩
  | parse | render => exact ⟨hcount, hparser, by simp [Request.query?, hqueries]⟩

theorem run (h : Alike n s t) (requests : List Request) :
    Alike n (s.run requests).1 (t.run (requests.filter (Request.concerns n))).1 := by
  induction requests generalizing s t with
  | nil => exact h
  | cons r requests ih =>
    by_cases hr : r.concerns n
    · rw [List.filter_cons_of_pos hr]
      exact ih (h.step r)
    · rw [List.filter_cons_of_neg hr]
      exact ih (h.skip (Bool.eq_false_iff.2 hr))

end Alike

end Session

open Session

/-- Whatever is asked of a session, each of its parsers has one hook that was installed on it last,
and reads a text as a parser does that has nothing but this hook. It renders a stored query so too,
as if it read the text of the query, whichever parser that was read with. What is stored for a text
is the same for all parsers, under a number that is new. Without the requests that do not concern
the parser, and with others to follow, its answers are the same. -/
theorem answers_isolated (before after : List Session.Request) :
    (∀ n, n < made before → ∃! hook, Leaves before n hook) ∧
    (∀ n hook, Leaves before n hook →
      (∀ text, answer before (.parse n text) after =
        some (.parsed (Parser.parse ⟨hook⟩ text))) ∧
      ∀ m text q, Stores before m text q →
        answer before (.render n m) after = some (.rendered (Parser.render ⟨hook⟩ q)) ∧
          Parser.parse ⟨hook⟩ text = .ok (Parser.render ⟨hook⟩ q)) ∧
    (∃ m, (∀ text q, ¬Stores before m text q) ∧ ∀ n, n < made before → ∀ text,
      answer before (.parseQuery n text) after =
        some (.stored ((Query.ofText text).map (m, ·)))) ∧
    ∀ n,
      (∀ text, answer before (.parse n text) after =
        answer (before.filter (Request.concerns n)) (.parse n text) []) ∧
      ∀ m, answer before (.render n m) after =
        answer (before.filter (Request.concerns n)) (.render n m) [] := by
  have hmade := length_parsers_run before
  refine ⟨fun n hn => ?_, fun n hook hleaves => ?_, ?_, fun n => ?_⟩
  · have hp := List.getElem?_eq_getElem (hmade ▸ hn)
    refine ⟨_, (getElem?_parsers_run before).1 hp, fun hook hhook => ?_⟩
    have hp' := (getElem?_parsers_run before (p := ⟨hook⟩)).2 hhook
    exact congrArg Parser.hook (Option.some.inj (hp'.symm.trans hp))
  · have hp := (getElem?_parsers_run before (p := ⟨hook⟩)).2 hleaves
    refine ⟨fun text => ?_, fun m text q hstores => ⟨?_, ?_⟩⟩
    · rw [answer_eq, step, hp]
    · rw [answer_eq, step, hp, (getElem?_queries_run before).2 ⟨text, hstores⟩]
    · rw [Parser.parse, hstores.ofText]
      rfl
  · refine ⟨(empty.run before).1.queries.length, fun text q hstores => ?_, fun n hn text => ?_⟩
    · have hq := (getElem?_queries_run before).2 ⟨text, hstores⟩
      simp at hq
    · rw [answer_eq, step, List.getElem?_eq_getElem (hmade ▸ hn)]
      cases Query.ofText text <;> rfl
  · have halike : Alike n (empty.run before).1 _ := .run ⟨rfl, rfl, rfl⟩ before
    refine ⟨fun text => ?_, fun m => ?_⟩
    · rw [answer_eq, answer_eq, halike.parse]
    · rw [answer_eq, answer_eq, halike.render]

theorem answers_isolated_of_two_parsers :
    answer [.create (some fun _ => .panic "stop"), .create none, .parse 0 "a = 1",
        .parseQuery 0 "a = 1", .setHook 1 (some fun _ => .replace .null), .setHook 0 none]
      (.render 1 0) [.setHook 1 none] = some (.rendered
        ⟨[(⟨"a", .compare .equal, .scalar (.int 1)⟩, .replace .null)], .ok ⟨some .null, none⟩⟩) ∧
    answer [.create (some fun _ => .panic "stop"), .create none, .parse 0 "a = 1",
        .parseQuery 0 "a = 1", .setHook 1 (some fun _ => .replace .null), .setHook 0 none]
      (.parse 0 "a = 1") [.setHook 1 none] =
        some (.parsed (.ok (.done ⟨some (.obj [("a", .int 1)]), none⟩))) := by
  have hread : Sentence.ofText "a = 1" =
      .ok (.filter (.one (.one (.test (.compare "a" .equal (.int 1)))))) := by
    refine Stage.read_eq_ok_of_passes (.cons rfl nofun (.cons rfl nofun (.cons rfl nofun
      (.nil _)))) ?_ rfl rfl
    nofun
  have h : Query.ofText "a = 1" = .ok ⟨some (.leaf ⟨"a", .compare .equal (.int 1)⟩), none⟩ :=
    (ofText_eq_ok_iff_sentence (by decide)).2 ⟨_, hread, rfl⟩
  obtain ⟨-, hanswers, -⟩ := answers_isolated
    [.create (some fun _ => .panic "stop"), .create none, .parse 0 "a = 1",
      .parseQuery 0 "a = 1", .setHook 1 (some fun _ => .replace .null), .setHook 0 none]
    [.setHook 1 none]
  obtain ⟨-, hrender⟩ := hanswers 1 (some fun _ => .replace .null)
    ⟨[_, _, _, _], _, _, rfl, .inr ⟨rfl, by decide⟩, by simp⟩
  obtain ⟨hparse, -⟩ := hanswers 0 none ⟨[_, _, _, _, _], _, _, rfl, .inr ⟨rfl, by decide⟩, nofun⟩
  obtain ⟨hrendered, -⟩ := hrender 0 "a = 1" ⟨some (.leaf ⟨"a", .compare .equal (.int 1)⟩), none⟩
    ⟨0, by simp [Session.run, Session.step, empty, h]⟩
  exact ⟨hrendered, by rw [hparse, Parser.parse, h]; rfl⟩

end FilterQuery
