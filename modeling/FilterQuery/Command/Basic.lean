import FilterQuery.Json.Printer
import FilterQuery.Settings

/-!
# Commands

There are two commands. One checks a text, and shows its document or only tells that it is a query;
with a configuration it shows the selection. The other lists the tokens of a text.
-/

namespace FilterQuery

/-- Why a command fails. -/
inductive CommandError where
  | parse (e : ParseError)
  | lexical (e : LexError)
  | settings (e : Settings.LoadError)
  | unreadableInput (fault : ReadFault)
  | noInput
  | panic (message : String)

def CommandError.message : CommandError → String
  | .parse e => "Parse error: " ++ e.message
  | .lexical e => "Lex error: " ++ e.message
  | .settings e => "Config error: " ++ e.message
  | .unreadableInput fault => "IO error: " ++ fault.message
  | .noInput => "No query provided. Pass it as an argument or pipe it to stdin."
  | .panic message => message

namespace Command

def trimLineEnds (text : String) : String :=
  String.ofList (text.toList.reverse.dropWhile (fun c => c = '\n' || c = '\r')).reverse

/-- What checking a text brings. -/
inductive Checked where
  | valid
  | document (value : Json)

def Checked.toText (pretty : Bool) : Checked → String
  | .valid => "Syntax is valid"
  | .document value => if pretty then value.pretty else value.compact

/-- The value of a rendering; a panic is a failure of the command. -/
def valueOf {α : Type} (toJson : α → Json) (result : Except ParseError (Rendering α)) :
    Except CommandError Checked :=
  match result with
  | .error e => .error (.parse e)
  | .ok rendering =>
    match rendering.outcome with
    | .error message => .error (.panic message)
    | .ok value => .ok (.document (toJson value))

/-- Tells whether a text is a query; needs no configuration. -/
def validate (text : String) : Except CommandError Checked :=
  match Query.ofText (trimLineEnds text) with
  | .error e => .error (.parse e)
  | .ok _ => .ok .valid

/-- Shows the document of a text, or with a configuration its selection. A configuration that does
not load is the failure, whatever the text is. -/
def check (text : String) (config : Option Contents) : Except CommandError Checked :=
  let text := trimLineEnds text
  match config with
  | none => valueOf Document.toJson (Parser.plain.parse text)
  | some file =>
    match Settings.load file with
    | .error e => .error (.settings e)
    | .ok settings =>
      valueOf Selection.toJson ((Profile.ofSettings settings).select (some text))

def lexemeLine (l : Lexeme) : String :=
  toString l.position.line ++ ":" ++ toString l.position.column ++ "\t" ++ l.token.listing ++
    "\t" ++ l.text

/-- Lists the tokens of a text, the end of input included. -/
def listTokens (text : String) : Except CommandError (List String) :=
  match tokenize text with
  | .error e => .error (.lexical e)
  | .ok lexemes => .ok (lexemes.map lexemeLine)

end Command

end FilterQuery
