import FilterQuery.Lexeme.Cursor
import FilterQuery.Sentence.Stage

/-!
# Reading a text

A text is read as a sentence by taking its lexemes through the stages, one by one as needed.
The first lexeme that a stage refuses is the error, and nothing behind it is read. So an error of
the lexemes themselves counts only if every lexeme in front of it is taken, as it would if all
lexemes were delivered first (`Stage.read_eq_runAll`). The empty text asks for nothing; it is the
only text without a clause.
-/

namespace FilterQuery

/-- A token that cannot go on, with its place and with what could. -/
structure SyntaxError where
  position : Position
  expected : Expectation
  found : Token
  deriving DecidableEq

def SyntaxError.message (e : SyntaxError) : String :=
  "expected " ++ e.expected.message ++ ", found " ++ e.found.describe ++ " at " ++
    e.position.describe

/-- Why a text is no sentence. -/
inductive ParseError where
  | lexical (e : LexError)
  | grammatical (e : SyntaxError)
  deriving DecidableEq

namespace ParseError

def message : ParseError → String
  | .lexical e => "Lex error: " ++ e.message
  | .grammatical e => "Syntax error: " ++ e.message

def position : ParseError → Position
  | .lexical e => e.position
  | .grammatical e => e.position

end ParseError

namespace Stage

/-- The stage behind a lexeme, or the error that it is. -/
def take (stage : Stage) (lexeme : Lexeme) : Except SyntaxError Stage :=
  match stage.step lexeme.token with
  | .ok next => .ok next
  | .error expected => .error ⟨lexeme.position, expected, lexeme.token⟩

/-- The sentence that a stage is in front of `last`, the end of the input. -/
def close (stage : Stage) (last : Lexeme) : Except SyntaxError Sentence :=
  match stage.finish with
  | .ok sentence => .ok sentence
  | .error expected => .error ⟨last.position, expected, last.token⟩

/-- Reads lexemes from a cursor as long as they are taken, and nothing behind one that is not. -/
def read (stage : Stage) (c : Cursor) : Except ParseError Sentence :=
  match h : c.next with
  | (.error e, _) => .error (.lexical e)
  | (.ok lexeme, after) =>
    if ht : lexeme.token = .endOfInput then (stage.close lexeme).mapError .grammatical
    else
      match stage.take lexeme with
      | .error e => .error (.grammatical e)
      | .ok next =>
        have := Cursor.length_rest_next_lt h ht
        next.read after
termination_by c.rest.length

/-- Reads a list of lexemes as long as they are taken. -/
def run (stage : Stage) : List Lexeme → Except SyntaxError Stage
  | [] => .ok stage
  | lexeme :: rest =>
    match stage.take lexeme with
    | .ok next => next.run rest
    | .error e => .error e

def runAll (stage : Stage) (d : Delivery) : Except ParseError Sentence :=
  match stage.run d.lexemes, d.ending with
  | .error e, _ => .error (.grammatical e)
  | .ok _, .error e => .error (.lexical e)
  | .ok next, .ok last => (next.close last).mapError .grammatical

theorem runAll_cons (stage : Stage) (lexeme : Lexeme) (lexemes : List Lexeme)
    (ending : Except LexError Lexeme) :
    stage.runAll ⟨lexeme :: lexemes, ending⟩ =
      match stage.take lexeme with
      | .ok next => next.runAll ⟨lexemes, ending⟩
      | .error e => .error (.grammatical e) := by
  unfold runAll
  simp only [run]
  cases stage.take lexeme <;> rfl

/-- It makes no difference whether the lexemes are delivered first. -/
theorem read_eq_runAll (stage : Stage) (c : Cursor) : stage.read c = stage.runAll c.deliver := by
  fun_induction read stage c with
  | case1 stage c e after h =>
    rw [Cursor.deliver_of_error h]
    rfl
  | case2 stage c lexeme after h ht =>
    rw [Cursor.deliver_of_end h ht]
    rfl
  | case3 stage c lexeme after h ht e he =>
    rw [Cursor.deliver_of_ok h ht, runAll_cons, he]
  | case4 stage c lexeme after h ht next hn _ ih =>
    rw [Cursor.deliver_of_ok h ht, runAll_cons, hn]
    exact ih

end Stage

def Sentence.ofText (text : String) : Except ParseError Sentence :=
  Stage.start.read (.ofText text)

def Query.ofText (text : String) : Except ParseError Query :=
  if text = "" then .ok .empty else (Sentence.ofText text).map Sentence.query

end FilterQuery
