import FilterQuery.Toml.DateTime
import FilterQuery.Toml.Number
import FilterQuery.Toml.Table

/-!
# TOML documents

A document is a list of lines: assignments, headers, comments. Values may go over several lines only
inside arrays and long strings, and arrays and inline tables hold each other at most seventy-nine
levels deep.
-/

namespace FilterQuery.Toml

/-- Reads the items of an array from behind its opening bracket or a comma, with at most `fuel` of
them. -/
def readItems (item : Reader Toml) : Nat → Reader (List Toml)
  | 0, _ => none
  | fuel + 1, cs => do
    let cs ← skipLines cs
    match cs with
    | ']' :: rest => return ([], rest)
    | _ =>
      let (value, rest) ← item cs
      let rest ← skipLines rest
      match rest with
      | ',' :: rest =>
        let (values, rest) ← readItems item fuel rest
        return (value :: values, rest)
      | ']' :: rest => return ([value], rest)
      | _ => none

def readAssignment (value : Reader Toml) : Reader Assignment := fun cs => do
  let (path, rest) ← readPath cs
  let rest ← readChar '=' rest
  let (value, rest) ← value (skipSpaces rest)
  return (⟨path, value⟩, rest)

/-- Reads the assignments of an inline table, with at most `fuel` of them. -/
def readInline (value : Reader Toml) : Nat → Reader (List Assignment)
  | 0, _ => none
  | fuel + 1, cs => do
    let (first, rest) ← readAssignment value cs
    match skipSpaces rest with
    | ',' :: rest =>
      let (others, rest) ← readInline value fuel rest
      return (first :: others, rest)
    | '}' :: rest => return ([first], rest)
    | _ => none

/-- Reads an inline table from behind its opening brace. -/
def readInlineTable (value : Reader Toml) : Reader Toml := fun cs =>
  match skipSpaces cs with
  | '}' :: rest => some (.table [], rest)
  | _ => do
    let (assignments, rest) ← readInline value (cs.length + 1) cs
    return (.table (Node.entriesToToml (← assignAll [] assignments)), rest)

def readScalar : Reader Toml
  | 't' :: 'r' :: 'u' :: 'e' :: cs => some (.bool true, cs)
  | 'f' :: 'a' :: 'l' :: 's' :: 'e' :: cs => some (.bool false, cs)
  | cs =>
    match readString cs with
    | some (s, rest) => some (.string s, rest)
    | none =>
      match readDateTime cs with
      | some result => some result
      | none => readNumber cs

/-- Reads a value that holds at most `depth` levels of arrays and inline tables. -/
def readValue : Nat → Reader Toml
  | 0, cs => readScalar cs
  | depth + 1, cs =>
    match cs with
    | '[' :: rest =>
      (readItems (readValue depth) (rest.length + 1) rest).map fun (items, rest) =>
        (.array items, rest)
    | '{' :: rest => readInlineTable (readValue depth) rest
    | _ => readScalar cs

/-- Reads a header from behind its opening brackets; `closing` are the brackets that end it. -/
def readHeader (closing : List Char) : Reader KeyPath := fun cs => do
  let (path, rest) ← readPath cs
  let rest ← closing.foldlM (fun rest c => readChar c rest) rest
  return (path, rest)

/-- A line of a document. -/
inductive Line where
  | assignment (a : Assignment)
  | header (path : KeyPath) (inArray : Bool)

def readLine : Reader Line := fun cs => do
  let (line, rest) ←
    match cs with
    | '[' :: '[' :: rest => (readHeader [']', ']'] rest).map fun (path, rest) =>
        (Line.header path true, rest)
    | '[' :: rest => (readHeader [']'] rest).map fun (path, rest) => (Line.header path false, rest)
    | _ => (readAssignment (readValue (maxDepth - 1)) cs).map fun (a, rest) => (.assignment a, rest)
  return (line, ← lineEnd? rest)

/-- Reads the lines of a document, with at most `fuel` of them. -/
def readLines : Nat → List Char → Option (List Line)
  | 0, _ => none
  | fuel + 1, cs =>
    match skipSpaces cs with
    | [] => some []
    | c :: rest =>
      if c = '#' || c = '\n' || c = '\r' then (lineEnd? (c :: rest)).bind (readLines fuel)
      else do
        let (line, rest) ← readLine (c :: rest)
        return line :: (← readLines fuel rest)

/-- The assignments in front of the first header, and the sections. -/
def sections : List Line → List Assignment × List Section
  | [] => ([], [])
  | .assignment a :: rest => (a :: (sections rest).1, (sections rest).2)
  | .header path inArray :: rest => ([], ⟨path, inArray, (sections rest).1⟩ :: (sections rest).2)

/-- The table that a document holds. A byte order mark may stand in front. -/
def ofText? (text : String) : Option (Entries Toml) := do
  let cs := match text.toList with
    | '\uFEFF' :: cs => cs
    | cs => cs
  let (assignments, sections) := sections (← readLines (cs.length + 1) cs)
  build assignments sections

end FilterQuery.Toml
