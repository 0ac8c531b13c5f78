import FilterQuery.Toml.Text

/-!
# Building tables

Tables are built from assignments and headers in the order of the document. A table that a dotted
key or a longer header has made in passing may still be added to, in ways that depend on what made
it; every other second mention of a name is refused.
-/

namespace FilterQuery.Toml

/-- What has made a table: a header of its own, a header that goes on behind it, or a dotted key
that goes on behind it. -/
inductive Origin where
  | header
  | longerHeader
  | dottedKey
  deriving DecidableEq

/-- What stands under a name while a document is read. -/
inductive Node where
  | value (v : Toml)
  | table (origin : Origin) (entries : List (String × Node))
  | tables (elements : List (List (String × Node)))

namespace Node

mutual

def toToml : Node → Toml
  | .value v => v
  | .table _ entries => .table (entriesToToml entries)
  | .tables elements => .array (elementsToToml elements)

def entriesToToml : List (String × Node) → List (String × Toml)
  | [] => []
  | (key, node) :: rest => (key, node.toToml) :: entriesToToml rest

def elementsToToml : List (List (String × Node)) → List Toml
  | [] => []
  | entries :: rest => .table (entriesToToml entries) :: elementsToToml rest

end

end Node

/-- A value and the key it is written under. -/
structure Assignment where
  path : KeyPath
  value : Toml

/-- Adds a value under a name that is free, if names may be added here. -/
def addValue (allowed : Bool) (name : String) (value : Toml) (entries : Entries Node) :
    Option (Entries Node) :=
  if allowed ∧ Entries.find? name entries = none then some (entries ++ [(name, .value value)])
  else none

/-- Adds a value under a dotted key. The way to it leads through tables that the key makes or that
were made in passing; a name is added only to a table that dotted keys have made, or to the table
that the assignment is written in. -/
def assign (allowed : Bool) (name : String) (value : Toml) :
    List String → Entries Node → Option (Entries Node)
  | [], entries => addValue allowed name value entries
  | parent :: parents, entries =>
    match Entries.find? parent entries with
    | none => (assign true name value parents []).map fun inner =>
        entries ++ [(parent, .table .dottedKey inner)]
    | some (.table origin inner) =>
      if origin = .header then none
      else (assign (origin = .dottedKey) name value parents inner).map fun inner =>
        Entries.insert parent (.table origin inner) entries
    | some (.tables elements) =>
      match elements.getLast? with
      | none => none
      | some inner => (assign false name value parents inner).map fun inner =>
          Entries.insert parent (.tables (elements.dropLast ++ [inner])) entries
    | some (.value _) => none

/-- Carries out assignments in the table they are written in. -/
def assignAll (entries : Entries Node) (assignments : List Assignment) : Option (Entries Node) :=
  assignments.foldlM (fun entries a => assign true a.path.name a.value a.path.parents entries)
    entries

/-- Changes the table that a header leads to; makes the tables on the way that are missing. In an
array of tables the way leads through the last one. -/
def under (change : Entries Node → Option (Entries Node)) :
    List String → Entries Node → Option (Entries Node)
  | [], entries => change entries
  | parent :: parents, entries =>
    match Entries.find? parent entries with
    | none => (under change parents []).map fun inner =>
        entries ++ [(parent, .table .longerHeader inner)]
    | some (.table origin inner) => (under change parents inner).map fun inner =>
        Entries.insert parent (.table origin inner) entries
    | some (.tables elements) =>
      match elements.getLast? with
      | none => none
      | some inner => (under change parents inner).map fun inner =>
          Entries.insert parent (.tables (elements.dropLast ++ [inner])) entries
    | some (.value _) => none

/-- Puts a table under `name`. A table that a longer header has made is taken up, and moves behind
the other entries. -/
def putTable (name : String) (assignments : List Assignment) (entries : Entries Node) :
    Option (Entries Node) :=
  match Entries.find? name entries with
  | none => (assignAll [] assignments).map fun inner => entries ++ [(name, .table .header inner)]
  | some (.table .longerHeader inner) => (assignAll inner assignments).map fun inner =>
      entries.filter (·.1 ≠ name) ++ [(name, .table .header inner)]
  | some _ => none

/-- Puts one more table into the array of tables under `name`. -/
def appendTable (name : String) (assignments : List Assignment) (entries : Entries Node) :
    Option (Entries Node) := do
  let inner ← assignAll [] assignments
  match Entries.find? name entries with
  | none => return entries ++ [(name, .tables [inner])]
  | some (.tables elements) => return Entries.insert name (.tables (elements ++ [inner])) entries
  | some _ => none

/-- A table of a document under its header. -/
structure Section where
  path : KeyPath
  inArray : Bool
  assignments : List Assignment

def addSection (entries : Entries Node) (s : Section) : Option (Entries Node) :=
  if s.inArray then under (appendTable s.path.name s.assignments) s.path.parents entries
  else under (putTable s.path.name s.assignments) s.path.parents entries

/-- The table of a document: the assignments in front of all headers, then the tables. -/
def build (assignments : List Assignment) (sections : List Section) : Option (Entries Toml) := do
  let root ← assignAll [] assignments
  let root ← sections.foldlM addSection root
  return Node.entriesToToml root

end FilterQuery.Toml
