import FilterQuery.File
import FilterQuery.Toml.Document
import FilterQuery.Profile

/-!
# Settings

What a configuration says of a profile: names to sort by, names to filter by, and defaults. Each
is read from entries of a fixed name; other entries say nothing. A default has two names, of which a
document may use one.
-/

namespace FilterQuery

/-- What a configuration says; a default that it does not give is absent. -/
structure Settings where
  sortNames : Renaming
  conditionNames : Renaming
  defaultFilter : Option Json
  defaultOrder : Option Json

namespace Settings

/-- The settings of a configuration that says nothing. -/
def empty : Settings := ⟨.empty, .empty, none, none⟩

def isEmpty (s : Settings) : Bool :=
  s.sortNames.isEmpty && s.conditionNames.isEmpty && s.defaultFilter.isNone && s.defaultOrder.isNone

/-- The entries of a value that is wanted as a table; a date or a time has one. -/
def entries? : Toml → Option (Entries Toml)
  | .table entries => some entries
  | .dateTime text => some [(Toml.dateTimeKey, .string text)]
  | _ => none

def string? : Toml → Option String
  | .string s => some s
  | _ => none

def renaming? (entries : Entries Toml) : Option Renaming :=
  (entries.mapM fun entry => (string? entry.2).map (entry.1, ·)).map Renaming.ofList

/-- The renaming under `name`; it is empty if there is none. -/
def renamingOf? (name : String) (document : Entries Toml) : Option Renaming :=
  match Entries.find? name document with
  | none => some .empty
  | some value => (entries? value).bind renaming?

/-- The default under one of two names; two defaults are refused. -/
def defaultOf? (name other : String) (entries : Entries Toml) : Option (Option Json) :=
  match Entries.find? name entries, Entries.find? other entries with
  | some _, some _ => none
  | some value, none => some (some value.toJson)
  | none, some value => some (some value.toJson)
  | none, none => some none

/-- The default filter and the default order of a value. A table gives them under their names, an
array as its first and its second item. -/
def defaults? (value : Toml) : Option (Option Json × Option Json) :=
  match value with
  | .array items => some ((items[0]?).map Toml.toJson, (items[1]?).map Toml.toJson)
  | _ => do
    let entries ← entries? value
    return (← defaultOf? "where" "where_clause" entries, ← defaultOf? "order_by" "orderBy" entries)

def defaultsOf? (document : Entries Toml) : Option (Option Json × Option Json) :=
  match Entries.find? "defaults" document with
  | none => some (none, none)
  | some value => defaults? value

def ofDocument? (document : Entries Toml) : Option Settings := do
  let sortNames ← renamingOf? "sort_mappings" document
  let conditionNames ← renamingOf? "condition_mappings" document
  let (filter, order) ← defaultsOf? document
  return ⟨sortNames, conditionNames, filter, order⟩

def ofText? (text : String) : Option Settings :=
  (Toml.ofText? text).bind ofDocument?

/-- Why a file gives no settings. -/
inductive LoadError where
  | unreadable (fault : ReadFault)
  | malformed

/-- The wording of a failure to load; what is wrong with a malformed text is not told. -/
def LoadError.message : LoadError → String
  | .unreadable fault => "IO error: " ++ fault.message
  | .malformed => "Failed to parse config: "

def load (file : Contents) : Except LoadError Settings :=
  match Contents.text file with
  | .error fault => .error (.unreadable fault)
  | .ok text =>
    match ofText? text with
    | none => .error .malformed
    | some settings => .ok settings

end Settings

/-- The profile that a configuration sets up. It renames the identifiers of leaves only if the
configuration has names for them. -/
def Profile.ofSettings (s : Settings) : Profile where
  parser := ⟨if s.conditionNames.isEmpty then none else some (.rename s.conditionNames)⟩
  sortNames := s.sortNames
  defaultFilter := s.defaultFilter.getD (.obj [])
  defaultOrder := s.defaultOrder.getD (.obj [])

end FilterQuery
