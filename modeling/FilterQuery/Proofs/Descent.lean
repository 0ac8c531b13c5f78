import FilterQuery.Proofs.Nesting
import FilterQuery.Proofs.Refusal

/-!
# Reading by descent

A sentence can also be read by procedures, one for each kind of phrase, that look at one lexeme and
call each other: a group is read by calling the procedure of disjunctions inside itself. On the way
a counter is kept of the groups that are open, and a procedure that would open one more than the
limit fails. The calls inside each other may be given a bound of their own, and a descent that would
need more of them is exhausted. Every call of a procedure of disjunctions, conjunctions and operands
is recorded, and so is its return.

A reader is at a stage if the rest of a reading from there has the answer of the whole one and the
calls so far are well counted (`Reader.At`). Taking a token keeps the reader at the stage behind it
(`meets_advance`), a refused token is the answer (`meets_refuse`), and a procedure for one item can
be repeated behind separators (`reads_separated`).
-/

namespace FilterQuery

/-- The procedures whose calls are recorded. -/
inductive Procedure where
  | disjunction
  | conjunction
  | operand
  deriving DecidableEq

/-- A call of a procedure or a return from it: the counter of open groups, the number of calls of
the procedure of disjunctions that have not returned, and the tokens that have been taken. -/
structure Visit where
  procedure : Procedure
  returns : Bool
  depth : Nat
  activations : Nat
  taken : List Token

/-- How far a descent has come: the lexeme it looks at, the text behind that, its counters, the
tokens it has taken and the calls it has made. -/
structure Reader where
  current : Lexeme
  after : Cursor
  depth : Nat
  activations : Nat
  taken : List Token
  visits : List Visit

/-- Why a descent ends without a phrase: the text is in error, or no more calls are allowed. -/
inductive Halt where
  | failed (e : ParseError)
  | exhausted
  deriving DecidableEq

/-- How much is left to look at; the end of the input does not count. -/
def Reader.left (r : Reader) : Nat :=
  r.after.rest.length + if r.current.token = .endOfInput then 0 else 1

abbrev Descent (α : Type) := ExceptT Halt (StateM Reader) α

namespace Descent

variable {α β : Type}

/-- Takes the lexeme that is looked at and looks at the next one. -/
def advance : Descent Unit := do
  let r ← get
  match r.after.next with
  | (.ok lexeme, after) =>
    set { r with current := lexeme, after := after, taken := r.taken ++ [r.current.token] }
  | (.error e, _) => throw (.failed (.lexical e))

def refuse (expected : Expectation) : Descent α := do
  let r ← get
  throw (.failed (.grammatical ⟨r.current.position, expected, r.current.token⟩))

def expect (t : Token) (expected : Expectation) : Descent Unit := do
  let r ← get
  if r.current.token = t then advance else refuse expected

def record (p : Procedure) (returns : Bool) : Descent Unit :=
  modify fun r =>
    { r with visits := r.visits ++ [⟨p, returns, r.depth, r.activations, r.taken⟩] }

def recorded (p : Procedure) (body : Descent α) : Descent α := do
  record p false
  let x ← body
  record p true
  return x

/-- Further items as long as a separator stands in front of them, at most so many. -/
def further (separator : Token) (push : Option β → α → β) (item : Descent α) :
    Nat → β → Descent β
  | 0, init => return init
  | n + 1, init => do
    let r ← get
    if r.current.token = separator then
      advance
      let last ← item
      further separator push item n (push (some init) last)
    else return init

/-- An item and further ones. Each of these takes a separator, so they are not more than what is
left. -/
def separated (separator : Token) (push : Option β → α → β) (item : Descent α) : Descent β := do
  let first ← item
  let r ← get
  further separator push item r.left (push none first)

def literal : Descent Literal := do
  let r ← get
  match r.current.token with
  | .literal v =>
    advance
    return v
  | _ => refuse .value

def list : Descent (Run Literal) := do
  expect .openParen .listOpening
  let values ← separated .comma Run.push literal
  expect .closeParen .listSeparator
  return values

/-- The test that goes on behind its identifier. -/
def test (name : String) : Descent Test := do
  let r ← get
  match r.current.token with
  | .comparison op =>
    advance
    let v ← literal
    return .compare name op v
  | .keyword .not =>
    advance
    expect (.keyword .inList) .inList
    let values ← list
    return .member name true values
  | _ =>
    expect (.keyword .inList) .predicate
    let values ← list
    return .member name false values

/-- An operand; `group` reads what stands in a group. -/
def operand (group : Descent Disjunction) : Descent Operand :=
  recorded .operand do
    let r ← get
    match r.current.token with
    | .openParen =>
      if r.depth = maxNesting then refuse .fewerGroups
      else
        set { r with depth := r.depth + 1 }
        advance
        let d ← group
        expect .closeParen .groupClosing
        modify fun r => { r with depth := r.depth - 1 }
        return .group d
    | .identifier name =>
      advance
      let t ← test name
      return .test t
    | _ => refuse .operand

def conjunction (group : Descent Disjunction) : Descent Conjunction :=
  recorded .conjunction (separated (.keyword .and) Conjunction.push (operand group))

/-- A disjunction, read with at most so many calls of this procedure inside each other. -/
def disjunction : Nat → Descent Disjunction
  | 0 => throw .exhausted
  | room + 1 => do
    modify fun r => { r with activations := r.activations + 1 }
    let d ← recorded .disjunction
      (separated (.keyword .or) Disjunction.push (conjunction (disjunction room)))
    modify fun r => { r with activations := r.activations - 1 }
    return d

def sortTerm : Descent SortTerm := do
  let r ← get
  match r.current.token with
  | .identifier name =>
    advance
    let r ← get
    match r.current.token with
    | .keyword .asc =>
      advance
      return ⟨name, some .ascending⟩
    | .keyword .desc =>
      advance
      return ⟨name, some .descending⟩
    | _ => return ⟨name, none⟩
  | _ => refuse .sortKey

/-- The sort terms of an ORDER that is looked at. -/
def order : Descent (Run SortTerm) := do
  advance
  expect (.keyword .byKeys) .byKeys
  separated .comma Run.push sortTerm

def finish (expected : Expectation) (s : Sentence) : Descent Sentence := do
  let r ← get
  if r.current.token = .endOfInput then return s else refuse expected

/-- The sort terms, if there are any, and the end of the input behind a disjunction or at the
beginning. -/
def ending (d : Option Disjunction) : Descent Sentence := do
  let r ← get
  if r.current.token = .keyword .order then
    let terms ← order
    finish .sortSeparator (.ofOrder d terms)
  else
    match d with
    | none => refuse .filterOrOrder
    | some d => finish .connective (.filter d)

def sentence (room : Nat) : Descent Sentence := do
  let r ← get
  if r.current.token = .keyword .order ∨ r.current.token = .endOfInput then ending none
  else
    let d ← disjunction room
    ending (some d)

/-- Reads a text; gives the outcome and all calls that have been made. -/
def ofText (room : Nat) (text : String) : Except Halt Sentence × List Visit :=
  match (Cursor.ofText text).next with
  | (.error e, _) => (.error (.failed (.lexical e)), [])
  | (.ok lexeme, after) =>
    let (outcome, r) := (sentence room).run.run ⟨lexeme, after, 0, 0, [], []⟩
    (outcome, r.visits)

end Descent

namespace Stage

/-- The rest of a reading from a stage in front of a lexeme. -/
def readAt (stage : Stage) (lexeme : Lexeme) (after : Cursor) : Except ParseError Sentence :=
  if lexeme.token = .endOfInput then (stage.close lexeme).mapError .grammatical
  else
    match stage.take lexeme with
    | .error e => .error (.grammatical e)
    | .ok next => next.read after

/-- The stage does not go on with the token, be it the end of the input. -/
def Refuses (stage : Stage) (t : Token) (expected : Expectation) : Prop :=
  if t = .endOfInput then stage.finish = .error expected else stage.step t = .error expected

variable {stage next : Stage} {c after : Cursor} {lexeme : Lexeme}

theorem read_of_next_ok (stage : Stage) (h : c.next = (.ok lexeme, after)) :
    stage.read c = stage.readAt lexeme after := by
  rw [read]
  split <;> rename_i h' <;> rw [h] at h' <;> cases h'
  rfl

theorem read_of_next_error (stage : Stage) {e : LexError} (h : c.next = (.error e, after)) :
    stage.read c = .error (.lexical e) := by
  rw [read]
  split <;> rename_i h' <;> rw [h] at h' <;> cases h'
  rfl

theorem step_endOfInput (stage : Stage) : ∃ e, stage.step .endOfInput = .error e := by
  cases stage with
  | connective site c => rcases site with ⟨frame, _ | ⟨next, outer⟩⟩ <;> exact ⟨_, rfl⟩
  | sortEnd filter terms last => rcases last with ⟨name, _ | direction⟩ <;> exact ⟨_, rfl⟩
  | _ => exact ⟨_, rfl⟩

theorem ne_endOfInput_of_step {t : Token} (h : stage.step t = .ok next) : t ≠ .endOfInput := by
  rintro rfl
  obtain ⟨e, he⟩ := stage.step_endOfInput
  rw [h] at he
  cases he

theorem readAt_of_step (h : stage.step lexeme.token = .ok next) :
    stage.readAt lexeme after = next.read after := by
  rw [readAt, if_neg (ne_endOfInput_of_step h), take, h]

theorem readAt_of_refuses {e : Expectation} (h : stage.Refuses lexeme.token e) :
    stage.readAt lexeme after = .error (.grammatical ⟨lexeme.position, e, lexeme.token⟩) := by
  rw [Refuses] at h
  rw [readAt]
  split at h <;> rename_i ht
  · rw [if_pos ht, close, h]
    rfl
  · rw [if_neg ht, take, h]

end Stage

/-- The first tokens of the text have been taken, the counter tells the groups that are open behind
them, and the limits are kept. -/
structure Visit.IsCounted (text : String) (v : Visit) : Prop where
  taken : v.taken <+: (Cursor.ofText text).deliver.lexemes.map Lexeme.token
  depth_eq : v.depth = ((Nesting.between 0).behind v.taken).groups
  depth_le : v.depth ≤ 64
  activations_le : v.activations ≤ 65

/-- The tokens that are still to be taken. -/
def Reader.pending (r : Reader) : List Token :=
  if r.current.token = .endOfInput then []
  else r.current.token :: r.after.deliver.lexemes.map Lexeme.token

/-- The reader is at a stage in the text: the rest of a reading from there has the answer that the
whole reading has, and what has been recorded is well counted. -/
structure Reader.At (text : String) (stage : Stage) (depth activations : Nat) (r : Reader) :
    Prop where
  read : stage.readAt r.current r.after = Sentence.ofText text
  tokens : (Cursor.ofText text).deliver.lexemes.map Lexeme.token = r.taken ++ r.pending
  nesting : stage.nesting = (Nesting.between 0).behind r.taken
  groups_le : stage.nesting.groups ≤ maxNesting
  visits : ∀ v ∈ r.visits, v.IsCounted text
  depth_eq : r.depth = depth
  activations_eq : r.activations = activations

theorem Reader.map_token_deliver {r : Reader} {c : Cursor}
    (h : c.next = (.ok r.current, r.after)) :
    c.deliver.lexemes.map Lexeme.token = r.pending := by
  rw [pending]
  split <;> rename_i ht
  · rw [Cursor.deliver_of_end h ht]
    rfl
  · rw [Cursor.deliver_of_ok h ht]
    rfl

namespace Reader.At

variable {text : String} {stage : Stage} {depth activations n m : Nat}
  {r : Reader}

theorem setDepth (h : r.At text stage depth activations) (hn : n = m) :
    ({ r with depth := n } : Reader).At text stage m activations :=
  ⟨h.read, h.tokens, h.nesting, h.groups_le, h.visits, hn, h.activations_eq⟩

theorem setActivations (h : r.At text stage depth activations) (hn : n = m) :
    ({ r with activations := n } : Reader).At text stage depth m :=
  ⟨h.read, h.tokens, h.nesting, h.groups_le, h.visits, h.depth_eq, hn⟩

end Reader.At

namespace Descent

variable {α β : Type} {text : String} {stage next : Stage}
  {depth activations : Nat} {r : Reader} {post : α → Reader → Prop}

/-- A descent from `r` succeeds with `post`, or fails as the whole reading does; it is not
exhausted. -/
def Meets (text : String) (p : Descent α) (r : Reader) (post : α → Reader → Prop) : Prop :=
  match p.run.run r with
  | (.ok x, r') => post x r'
  | (.error (.failed e), r') => Sentence.ofText text = .error e ∧ ∀ v ∈ r'.visits, v.IsCounted text
  | (.error .exhausted, _) => False

theorem run_bind (p : Descent α) (f : α → Descent β) (r : Reader) :
    (p >>= f).run.run r = match p.run.run r with
      | (.ok x, r') => (f x).run.run r'
      | (.error e, r') => (.error e, r') := by
  simp only [ExceptT.run_bind, StateT.run_bind]
  rcases p.run.run r with ⟨_ | x, r'⟩ <;> rfl

variable {p : Descent α}

theorem Meets.bind {f : α → Descent β} {post : β → Reader → Prop}
    (h : Meets text p r fun x r' => Meets text (f x) r' post) : Meets text (p >>= f) r post := by
  rw [Meets] at h ⊢
  rw [run_bind]
  revert h
  rcases p.run.run r with ⟨(_ | _) | x, r'⟩ <;> exact id

theorem Meets.get {f : Reader → Descent α} (h : Meets text (f r) r post) :
    Meets text (get >>= f) r post :=
  Meets.bind h

theorem meets_refuse {e : Expectation} (h : r.At text stage depth activations)
    (hr : stage.Refuses r.current.token e) : Meets text (refuse e) r post :=
  ⟨h.read.symm.trans (Stage.readAt_of_refuses hr), h.visits⟩

theorem Meets.mono {post' : α → Reader → Prop} (h : Meets text p r post)
    (hpost : ∀ x r', post x r' → post' x r') : Meets text p r post' := by
  rw [Meets] at h ⊢
  revert h
  rcases p.run.run r with ⟨(_ | _) | x, r'⟩
  · exact id
  · exact id
  · exact hpost x r'

/-- A procedure leads from a stage to stages behind what it reads; the counters are as before. -/
def Reads (text : String) (p : Descent α) (stage : Stage)
    (depth activations : Nat) (Behind : α → Stage → Token → Prop) : Prop :=
  ∀ r : Reader, r.At text stage depth activations → Meets text p r fun x r' =>
    ∃ next, Behind x next r'.current.token ∧ r'.At text next depth activations ∧
      r'.left ≤ r.left

theorem Reads.meets {Behind : α → Stage → Token → Prop}
    (hp : Reads text p stage depth activations Behind) (h : r.At text stage depth activations)
    (hpost : ∀ x next r', Behind x next r'.current.token → r'.At text next depth activations →
      r'.left ≤ r.left → post x r') : Meets text p r post :=
  (hp r h).mono fun x r' ⟨next, hb, hr, hl⟩ => hpost x next r' hb hr hl

theorem length_rest_next_le {c after : Cursor} {lexeme : Lexeme}
    (h : c.next = (.ok lexeme, after)) : after.rest.length ≤ c.rest.length := by
  obtain ⟨blanks, hc, -, -⟩ := Cursor.next_eq_append h
  rw [hc, List.length_append, List.length_append]
  omega

/-- Taking a lexeme leaves less, and the stage behind it. -/
theorem meets_advance {post : Unit → Reader → Prop} (h : r.At text stage depth activations)
    (hs : stage.step r.current.token = .ok next)
    (hpost : ∀ r', r'.At text next depth activations → r'.left < r.left → post () r') :
    Meets text advance r post := by
  have hread := h.read
  rw [Stage.readAt_of_step hs] at hread
  rcases hn : r.after.next with ⟨e | lexeme, after⟩
  · have hrun : advance.run.run r = (.error (.failed (.lexical e)), r) := by
      change (match r.after.next with | (.ok _, _) => _ | (.error _, _) => _ : Descent Unit) r = _
      rw [hn]
      rfl
    rw [Meets, hrun]
    exact ⟨hread.symm.trans (Stage.read_of_next_error next hn), h.visits⟩
  · have hrun : advance.run.run r = (.ok (), { r with
        current := lexeme, after := after, taken := r.taken ++ [r.current.token] }) := by
      change (match r.after.next with | (.ok _, _) => _ | (.error _, _) => _ : Descent Unit) r = _
      rw [hn]
      rfl
    obtain ⟨hnesting, hle⟩ := Stage.nesting_step hs h.groups_le
    rw [Meets, hrun]
    refine hpost _ ⟨?_, ?_, ?_, hle, h.visits, h.depth_eq, h.activations_eq⟩ ?_
    · rw [← Stage.read_of_next_ok next hn]
      exact hread
    · rw [h.tokens, Reader.pending, if_neg (Stage.ne_endOfInput_of_step hs), List.append_assoc]
      exact congrArg (r.taken ++ r.current.token :: ·) (Reader.map_token_deliver hn)
    · rw [hnesting, h.nesting, Nesting.behind_append]
      rfl
    · have hlength := length_rest_next_le hn
      rw [Reader.left, Reader.left, if_neg (Stage.ne_endOfInput_of_step hs)]
      dsimp only
      split <;> rename_i ht
      · omega
      · have := Cursor.length_rest_next_lt hn ht
        omega

theorem meets_expect {post : Unit → Reader → Prop} {t : Token} {e : Expectation}
    (h : r.At text stage depth activations) (hs : stage.step t = .ok next)
    (hr : r.current.token ≠ t → stage.Refuses r.current.token e)
    (hpost : ∀ r', r'.At text next depth activations → r'.left < r.left → post () r') :
    Meets text (expect t e) r post := by
  refine Meets.get ?_
  split <;> rename_i ht
  · exact meets_advance h (ht ▸ hs) hpost
  · exact meets_refuse h (hr ht)

/-- A procedure that keeps the counter at the groups that are open may be recorded. -/
theorem reads_recorded (procedure : Procedure) {Behind : α → Stage → Token → Prop}
    (hp : Reads text p stage depth activations Behind) (hs : stage.nesting.groups = depth)
    (hb : ∀ x next t, Behind x next t → next.nesting.groups = depth) (ha : activations ≤ 65) :
    Reads text (recorded procedure p) stage depth activations Behind := by
  have hrecord : ∀ {next : Stage} {r : Reader}, r.At text next depth activations →
      next.nesting.groups = depth → ∀ returns, ({ r with visits := r.visits ++
        [⟨procedure, returns, r.depth, r.activations, r.taken⟩] } : Reader).At text next depth
          activations := by
    intro next r h hn returns
    refine ⟨h.read, h.tokens, h.nesting, h.groups_le, ?_, h.depth_eq, h.activations_eq⟩
    refine List.forall_mem_append.2 ⟨h.visits, List.forall_mem_singleton.2 ⟨?_, ?_, ?_, ?_⟩⟩
    · exact ⟨_, h.tokens.symm⟩
    · rw [← h.nesting, h.depth_eq, hn]
    · rw [h.depth_eq, ← hn]
      exact h.groups_le
    · rw [h.activations_eq]
      exact ha
  intro r h
  refine Meets.bind (p := record procedure false) ?_
  refine Meets.bind (hp.meets (hrecord h hs false) fun x next r' hx hr hl => ?_)
  exact ⟨next, hx, hrecord hr (hb x next _ hx) true, hl⟩

section Separated

variable {Before : Option β → Stage → Prop} {Behind : β → Stage → Token → Prop} {separator : Token}
  {push : Option β → α → β} {item : Descent α}

theorem meets_further
    (hitem : ∀ init stage, Before init stage → Reads text item stage depth activations
      fun x => Behind (push init x))
    (hseparator : ∀ x stage, Behind x stage separator → ∃ next,
      stage.step separator = .ok next ∧ Before (some x) next) :
    ∀ (n : Nat) (x : β) (stage : Stage) (r : Reader), r.left ≤ n →
      Behind x stage r.current.token → r.At text stage depth activations →
        Meets text (further separator push item n x) r fun y r' =>
          ∃ next, (Behind y next r'.current.token ∧ r'.current.token ≠ separator) ∧
            r'.At text next depth activations ∧ r'.left ≤ r.left
  | 0, x, stage, r, hn, hx, h => by
    -- where nothing is left, the end of the input is looked at
    have hend : r.current.token = .endOfInput := by
      by_contra ht
      rw [Reader.left, if_neg ht] at hn
      omega
    refine ⟨stage, ⟨hx, fun ht => ?_⟩, h, le_rfl⟩
    obtain ⟨next, hs, -⟩ := hseparator x stage (ht ▸ hx)
    exact Stage.ne_endOfInput_of_step hs (ht ▸ hend)
  | n + 1, x, stage, r, hn, hx, h => by
    refine Meets.get ?_
    split <;> rename_i ht
    · obtain ⟨next, hs, hnext⟩ := hseparator x stage (ht ▸ hx)
      refine Meets.bind (meets_advance h (ht ▸ hs) fun r₁ h₁ hl₁ => ?_)
      refine Meets.bind ((hitem _ _ hnext).meets h₁ fun y next₂ r₂ hy h₂ hl₂ => ?_)
      refine (meets_further hitem hseparator n _ next₂ r₂ (by omega) hy h₂).mono ?_
      rintro z r₃ ⟨next₃, hz, h₃, hl₃⟩
      exact ⟨next₃, hz, h₃, by omega⟩
    · exact ⟨stage, ⟨hx, ht⟩, h, le_rfl⟩

variable (Before Behind) in
theorem reads_separated
    (hitem : ∀ init stage, Before init stage → Reads text item stage depth activations
      fun x => Behind (push init x))
    (hseparator : ∀ x stage, Behind x stage separator → ∃ next,
      stage.step separator = .ok next ∧ Before (some x) next)
    {stage : Stage} (hs : Before none stage) :
    Reads text (separated separator push item) stage depth activations
      fun x next t => Behind x next t ∧ t ≠ separator := by
  intro r h
  refine Meets.bind ((hitem _ _ hs).meets h fun x next r₁ hx h₁ hl₁ => ?_)
  refine Meets.get ((meets_further hitem hseparator _ _ next r₁ le_rfl hx h₁).mono ?_)
  rintro y r₂ ⟨next₂, hy, h₂, hl₂⟩
  exact ⟨next₂, hy, h₂, by omega⟩

end Separated

end Descent

end FilterQuery
