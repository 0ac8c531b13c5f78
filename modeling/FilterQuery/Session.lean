import FilterQuery.Rendering
import FilterQuery.Sentence.Reading

/-!
# Sessions

A parser reads texts and renders them with a hook of its own, if it has one. A session holds parsers
and the queries that were read with them; each request changes or asks one of its parsers.
-/

namespace FilterQuery

/-- A reader of texts with its hook. -/
structure Parser where
  hook : Option Hook

namespace Parser

def plain : Parser := ⟨none⟩

def describe (p : Parser) : String :=
  "Parser \x7b hook: " ++ toString p.hook.isSome ++ " \x7d"

def render (p : Parser) (q : Query) : Rendering Document :=
  q.render p.hook

def parse (p : Parser) (text : String) : Except ParseError (Rendering Document) :=
  (Query.ofText text).map p.render

end Parser

/-- Parsers and the queries read with them, each in the order of their making. -/
structure Session where
  parsers : List Parser
  queries : List Query

namespace Session

def empty : Session := ⟨[], []⟩

/-- A request to a session; parsers and queries are counted from zero. -/
inductive Request where
  | create (hook : Option Hook)
  | setHook (parser : Nat) (hook : Option Hook)
  | parse (parser : Nat) (text : String)
  | parseQuery (parser : Nat) (text : String)
  | render (parser : Nat) (query : Nat)

/-- The answer to a request; there is none for a parser or a query that does not exist. -/
inductive Answer where
  | created (parser : Nat) (p : Parser)
  | changed (p : Parser)
  | parsed (result : Except ParseError (Rendering Document))
  | stored (result : Except ParseError (Nat × Query))
  | rendered (result : Rendering Document)
  | unknown

def step (s : Session) : Request → Session × Answer
  | .create hook => (⟨s.parsers ++ [⟨hook⟩], s.queries⟩, .created s.parsers.length ⟨hook⟩)
  | .setHook parser hook =>
    if parser < s.parsers.length then (⟨s.parsers.set parser ⟨hook⟩, s.queries⟩, .changed ⟨hook⟩)
    else (s, .unknown)
  | .parse parser text =>
    match s.parsers[parser]? with
    | some p => (s, .parsed (p.parse text))
    | none => (s, .unknown)
  | .parseQuery parser text =>
    match s.parsers[parser]? with
    | some _ =>
      match Query.ofText text with
      | .ok q => (⟨s.parsers, s.queries ++ [q]⟩, .stored (.ok (s.queries.length, q)))
      | .error e => (s, .stored (.error e))
    | none => (s, .unknown)
  | .render parser query =>
    match s.parsers[parser]?, s.queries[query]? with
    | some p, some q => (s, .rendered (p.render q))
    | _, _ => (s, .unknown)

def run (s : Session) : List Request → Session × List Answer
  | [] => (s, [])
  | r :: rest =>
    let (next, answer) := s.step r
    let (last, answers) := next.run rest
    (last, answer :: answers)

end Session

end FilterQuery
