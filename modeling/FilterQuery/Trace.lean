import FilterQuery.Settings

/-!
# Traces

The events that reading, rendering and selecting by a text, and loading a configuration, give to a
log. They follow from what these bring, so a trace can be told after the fact.
-/

namespace FilterQuery

/-- How much a log must want to know to keep an event. -/
inductive Level where
  | debug
  | trace

def Level.toText : Level → String
  | .debug => "DEBUG"
  | .trace => "TRACE"

/-- Something worth a line in a log: a message, and named values. -/
structure Event where
  level : Level
  message : String
  fields : List (String × String)

namespace Trace

def lexeme (l : Lexeme) : Event :=
  ⟨.trace, "lexeme", [("token", l.token.toText), ("offset", toString l.position.offset)]⟩

/-- The events of the lexemes of a text, up to the first error. -/
def tokenize (text : String) : List Event :=
  let d := (Cursor.ofText text).deliver
  let last := match d.ending with
    | .ok l => [l]
    | .error _ => []
  (d.lexemes ++ last).map lexeme

def read (text : String) : List Event :=
  let outcome : Event := match Query.ofText text with
    | .ok q => ⟨.debug, "parsed query",
        [("has_where", toString q.filter.isSome), ("has_order_by", toString q.order.isSome)]⟩
    | .error e => ⟨.debug, "rejected query", [("error", e.message)]⟩
  [⟨.debug, "parsing query", [("len", toString text.utf8ByteSize)]⟩, outcome]

/-- The event of a call, if its reply replaces the document. -/
def override? : Call × Reply → Option Event
  | (c, .replace _) => some ⟨.trace, "condition hook override",
      [("identifier", c.identifier), ("operator", c.operator.toText)]⟩
  | _ => none

def overrides (calls : List (Call × Reply)) : List Event :=
  calls.filterMap override?

def parse (p : Parser) (text : String) : List Event :=
  let rendered := match p.parse text with
    | .ok rendering => overrides rendering.calls
    | .error _ => []
  read text ++ rendered

/-- The event of a part of a selection, if it is the default. -/
def fallback (message : String) (c : Clause) : List Event :=
  if c.isFallback then [⟨.trace, message, []⟩] else []

def select (p : Profile) (text : Option String) : List Event :=
  let completed := match p.select text with
    | .ok ⟨_, .ok selection⟩ =>
      fallback "using default where clause" selection.filter ++
        fallback "using default order by" selection.order
    | _ => []
  parse p.parser (text.getD "") ++ completed

/-- The events of loading the settings of the file at `path`. -/
def load (path : String) (file : Contents) : List Event :=
  match Settings.load file with
  | .ok settings => [⟨.debug, "loaded translator config",
      [("path", path), ("sort_mappings", toString settings.sortNames.size),
        ("condition_mappings", toString settings.conditionNames.size)]⟩]
  | .error _ => []

end Trace

end FilterQuery
