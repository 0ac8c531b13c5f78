import FilterQuery.Command.Basic

/-!
# The command line

A command line names a command, its options and at most one text; the text comes from standard
input if the line has none. Options may stand anywhere behind the command up to a lone `--`, each at
most once, short ones also joined; a value follows its option in the next argument or in the same
one. A line that fits no command ends with exit code two.
-/

namespace FilterQuery.Command

/-- The options of the check command. -/
structure CheckOptions where
  text : Option String
  config : Option String
  pretty : Bool
  syntaxOnly : Bool

/-- What a command line asks for. -/
inductive Invocation where
  | check (options : CheckOptions)
  | tokens (text : Option String)
  | version
  | help

def CheckOptions.none : CheckOptions := ⟨.none, .none, false, false⟩

namespace CheckOptions

/-- Sets the path of the configuration, which is given once and is not empty. -/
def setConfig (o : CheckOptions) (path : String) : Option CheckOptions :=
  if o.config.isSome ∨ path = "" then .none else some { o with config := some path }

/-- Asks for several lines; once. -/
def setPretty (o : CheckOptions) : Option CheckOptions :=
  if o.pretty then .none else some { o with pretty := true }

/-- Asks for no document; once. -/
def setSyntaxOnly (o : CheckOptions) : Option CheckOptions :=
  if o.syntaxOnly then .none else some { o with syntaxOnly := true }

/-- Sets the text; once. -/
def setText (o : CheckOptions) (text : String) : Option CheckOptions :=
  if o.text.isSome then .none else some { o with text := some text }

end CheckOptions

/-- What an argument with options leaves to do. -/
inductive Pending where
  | nothing (o : CheckOptions)
  | path (o : CheckOptions)
  | help

def isOption (arg : String) : Bool :=
  match arg.toList with
  | '-' :: _ :: _ => true
  | _ => false

/-- The path that an option is given with `=` in front or without. -/
def attached : List Char → String
  | '=' :: cs => String.ofList cs
  | cs => String.ofList cs

def readShort (o : CheckOptions) : List Char → Option Pending
  | [] => some (.nothing o)
  | 'p' :: cs => o.setPretty.bind (readShort · cs)
  | ['c'] => if o.config.isSome then none else some (.path o)
  | 'c' :: cs => (o.setConfig (attached cs)).map .nothing
  | 'h' :: _ => some .help
  | _ => none

/-- Reads a long option, with its value if one is attached. -/
def readLong (o : CheckOptions) (name : String) (value : Option String) : Option Pending :=
  match name, value with
  | "config", none => if o.config.isSome then none else some (.path o)
  | "config", some path => (o.setConfig path).map .nothing
  | "pretty", none => o.setPretty.map .nothing
  | "syntax-only", none => o.setSyntaxOnly.map .nothing
  | "help", none => some .help
  | _, _ => none

/-- The name of a long option and the value attached to it. -/
def splitLong (cs : List Char) : String × Option String :=
  let name := String.ofList (cs.takeWhile (· ≠ '='))
  match cs.dropWhile (· ≠ '=') with
  | [] => (name, none)
  | _ :: value => (name, some (String.ofList value))

def readCheckArgument (o : CheckOptions) (arg : String) : Option Pending :=
  match arg.toList with
  | '-' :: '-' :: cs => readLong o (splitLong cs).1 (splitLong cs).2
  | '-' :: c :: cs => readShort o (c :: cs)
  | _ => (o.setText arg).map .nothing

def readCheck (o : CheckOptions) : List String → Option Invocation
  | [] => some (.check o)
  | arg :: rest =>
    if arg = "--" then (rest.foldlM CheckOptions.setText o).map .check
    else match readCheckArgument o arg, rest with
      | none, _ => none
      | some .help, _ => some .help
      | some (.nothing o), rest => readCheck o rest
      | some (.path _), [] => none
      | some (.path o), path :: rest =>
        if isOption path then none else (o.setConfig path).bind (readCheck · rest)

def readTokens (text : Option String) : List String → Option Invocation
  | [] => some (.tokens text)
  | arg :: rest =>
    if arg = "--" then
      match text, rest with
      | text, [] => some (.tokens text)
      | none, [text] => some (.tokens (some text))
      | _, _ => none
    else if arg = "--help" ∨ arg.toList.take 2 = ['-', 'h'] then some .help
    else if isOption arg ∨ text.isSome then none
    else readTokens (some arg) rest

def names : List String := ["check", "tokens", "help"]

/-- Reads a command line without the name of the program. -/
def Invocation.ofArguments : List String → Option Invocation
  | [] => none
  | "check" :: rest => readCheck .none rest
  | "tokens" :: rest => readTokens none rest
  | ["help"] => some .help
  | ["help", name] => if name ∈ names then some .help else none
  | arg :: _ =>
    if arg = "--help" ∨ arg.toList.take 2 = ['-', 'h'] then some .help
    else if arg = "--version" ∨ arg.toList.take 2 = ['-', 'V'] then some .version
    else none

/-- What a run leaves behind. -/
structure Outcome where
  exitCode : Nat
  output : String
  errors : String

def Outcome.ofResult (result : Except CommandError String) : Outcome :=
  match result with
  | .ok output => ⟨0, output, ""⟩
  | .error e => ⟨1, "", e.message ++ "\n"⟩

/-- The text that a command works on: that of the command line, or else standard input. -/
def textOf (given : Option String) (input : Contents) : Except CommandError String :=
  match given with
  | some text => .ok text
  | none => (Contents.text input).mapError .unreadableInput

def usage : String :=
  "Usage: dql check [-c CONFIG] [-p] [--syntax-only] [QUERY]\n       dql tokens [QUERY]\n"

/-- What the check command makes of a text. -/
def CheckOptions.checked (o : CheckOptions) (file : String → Contents) (text : String) :
    Except CommandError Checked :=
  if o.syntaxOnly then validate text else check text (o.config.map file)

def runCheck (o : CheckOptions) (input : Contents) (file : String → Contents) :
    Except CommandError String := do
  let text ← textOf o.text input
  let checked ← o.checked file text
  return checked.toText o.pretty ++ "\n"

def runTokens (given : Option String) (input : Contents) : Except CommandError String := do
  let text ← textOf given input
  let lines ← listTokens text
  return String.join (lines.map (· ++ "\n"))

/-- Carries out a command line: `input` is standard input, `file` reads a path. -/
def Invocation.run (input : Contents) (file : String → Contents) : Invocation → Outcome
  | .check o => .ofResult (runCheck o input file)
  | .tokens text => .ofResult (runTokens text input)
  | .version => ⟨0, "dql 0.1.0\n", ""⟩
  | .help => ⟨0, usage, ""⟩

/-- The outcome of a command line that fits no command. -/
def Outcome.misuse : Outcome := ⟨2, "", usage⟩

/-- The path that a command line reads, if it reads one. -/
def Invocation.path? : Invocation → Option String
  | .check o => if o.syntaxOnly then none else o.config
  | _ => none

def Invocation.readsInput : Invocation → Bool
  | .check o => o.text.isNone
  | .tokens text => text.isNone
  | _ => false

end FilterQuery.Command
