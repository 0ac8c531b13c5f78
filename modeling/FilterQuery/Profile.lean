import FilterQuery.Session

/-!
# Profiles

A profile says how texts are taken: by which parser they are read, what the identifiers they sort by
are renamed to, and which default stands in for a part that a text does not have. What it makes of a
text is a selection, of which no part is absent. A selection tells a default from a part that was
read, also where the two are equal as values.
-/

namespace FilterQuery

/-- A parser with names to sort by and with defaults. -/
structure Profile where
  parser : Parser
  sortNames : Renaming
  defaultFilter : Json
  defaultOrder : Json

/-- One part of a selection. -/
inductive Clause where
  | parsed (value : Json)
  | fallback (value : Json)

namespace Clause

def value : Clause → Json
  | .parsed value => value
  | .fallback value => value

def isFallback : Clause → Bool
  | .parsed _ => false
  | .fallback _ => true

def ofOption (default : Json) : Option Json → Clause
  | some value => .parsed value
  | none => .fallback default

end Clause

/-- A filter and an order, neither of them absent. -/
structure Selection where
  filter : Clause
  order : Clause

def Selection.toJson (s : Selection) : Json :=
  .obj [("where", s.filter.value), ("orderBy", s.order.value)]

namespace Renaming

variable {α : Type}

/-- Writes the entries again, each under the new name of its key. Where two keys get the same name,
the first keeps its place and the last its value. -/
def rewriteKeys (r : Renaming) (entries : Entries α) : Entries α :=
  .ofList (entries.map fun entry => (r.apply entry.1, entry.2))

/-- Renames the keys of the entries; with nothing to rename they are left as they are. -/
def renameKeys (r : Renaming) (entries : Entries α) : Entries α :=
  if r.isEmpty then entries else r.rewriteKeys entries

theorem renameKeys_of_isEmpty {r : Renaming} (h : r.isEmpty = true) (entries : Entries α) :
    r.renameKeys entries = entries :=
  if_pos h

end Renaming

namespace Profile

/-- The profile that renames nothing and whose defaults are empty objects. -/
def plain : Profile := ⟨.plain, .empty, .obj [], .obj []⟩

def complete (p : Profile) (d : Document) : Selection :=
  ⟨.ofOption p.defaultFilter d.filter,
    .ofOption p.defaultOrder <|
      d.order.map fun entries => Direction.toJson (p.sortNames.renameKeys entries)⟩

/-- The selection that a text asks for; a missing text is read as an empty one. -/
def select (p : Profile) (text : Option String) : Except ParseError (Rendering Selection) :=
  (p.parser.parse (text.getD "")).map (·.map p.complete)

/-- A change of one part of a profile. -/
inductive Change where
  | sortName (source target : String)
  | defaultFilter (value : Json)
  | defaultOrder (value : Json)
  | hook (hook : Hook)
  | parser (parser : Parser)

def change (p : Profile) : Change → Profile
  | .sortName source target => { p with sortNames := p.sortNames.insert source target }
  | .defaultFilter value => { p with defaultFilter := value }
  | .defaultOrder value => { p with defaultOrder := value }
  | .hook hook => { p with parser := ⟨some hook⟩ }
  | .parser parser => { p with parser := parser }

end Profile

end FilterQuery
