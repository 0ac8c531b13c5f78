import FilterQuery.Json.Basic

/-!
# TOML values

The values that a TOML document can hold. A table has its entries in the order of the document, and
a date or a time is kept as the text that writes it in full.
-/

namespace FilterQuery

/-- A TOML value. -/
inductive Toml where
  | string (s : String)
  | int (n : Int)
  | float (x : Binary64)
  | bool (b : Bool)
  | dateTime (text : String)
  | array (items : List Toml)
  | table (entries : List (String × Toml))

namespace Toml

/-- The key that marks the object which stands for a date or a time. -/
def dateTimeKey : String := "$__toml_private_datetime"

mutual

def toJson : Toml → Json
  | .string s => .str s
  | .int n => .int n
  | .float x => .ofBinary64 x
  | .bool b => .bool b
  | .dateTime text => .single dateTimeKey (.str text)
  | .array items => .arr (itemsToJson items)
  | .table entries => .obj (entriesToJson entries)

def itemsToJson : List Toml → List Json
  | [] => []
  | item :: rest => item.toJson :: itemsToJson rest

def entriesToJson : List (String × Toml) → List (String × Json)
  | [] => []
  | (key, value) :: rest => (key, value.toJson) :: entriesToJson rest

end

/-- A reader of the front of a text: what it finds and what it leaves. -/
abbrev Reader (α : Type) := List Char → Option (α × List Char)

end Toml

end FilterQuery
