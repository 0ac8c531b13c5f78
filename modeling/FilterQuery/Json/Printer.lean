import FilterQuery.Json.Basic
import FilterQuery.Number.Layout

/-!
# JSON text

Two forms of the same text: without any blank, and with one entry or item a line, each level set in
by two spaces. Strings escape the double quote, the backslash and the controls below the space, and
nothing else.
-/

namespace FilterQuery.Json

/-- A hexadecimal number of four digits. -/
def fourDigits (n : Nat) : List Char :=
  let digits := Nat.toDigits 16 n
  List.replicate (4 - digits.length) '0' ++ digits

def escapeChar (c : Char) : List Char :=
  if c = '"' then ['\\', '"']
  else if c = '\\' then ['\\', '\\']
  else if c = '\n' then ['\\', 'n']
  else if c = '\r' then ['\\', 'r']
  else if c = '\t' then ['\\', 't']
  else if c.toNat = 0x08 then ['\\', 'b']
  else if c.toNat = 0x0C then ['\\', 'f']
  else if c.toNat < 0x20 then '\\' :: 'u' :: fourDigits c.toNat
  else [c]

def quote (s : String) : String :=
  String.ofList ('"' :: (s.toList.flatMap escapeChar ++ ['"']))

def printScalar : Json → String
  | .bool true => "true"
  | .bool false => "false"
  | .int n => toString n
  | .float x => x.toText .json
  | .str s => quote s
  | _ => "null"

mutual

def compact : Json → String
  | .arr items => "[" ++ compactItems "" items ++ "]"
  | .obj fields => "\x7b" ++ compactFields "" fields ++ "\x7d"
  | value => printScalar value

/-- The items of an array, with `separator` in front of the first. -/
def compactItems (separator : String) : List Json → String
  | [] => ""
  | item :: rest => separator ++ item.compact ++ compactItems "," rest

/-- The entries of an object, with `separator` in front of the first. -/
def compactFields (separator : String) : List (String × Json) → String
  | [] => ""
  | (key, value) :: rest =>
    separator ++ quote key ++ ":" ++ value.compact ++ compactFields "," rest

end

mutual

/-- The text of a value over several lines; `margin` stands in front of its last line. -/
def prettyAt (margin : String) : Json → String
  | .arr [] => "[]"
  | .arr (item :: rest) =>
    "[" ++ prettyItems (margin ++ "  ") "\n" (item :: rest) ++ "\n" ++ margin ++ "]"
  | .obj [] => "\x7b\x7d"
  | .obj (field :: rest) =>
    "\x7b" ++ prettyFields (margin ++ "  ") "\n" (field :: rest) ++ "\n" ++ margin ++ "\x7d"
  | value => printScalar value

def prettyItems (margin separator : String) : List Json → String
  | [] => ""
  | item :: rest =>
    separator ++ margin ++ item.prettyAt margin ++ prettyItems margin ",\n" rest

/-- The entries of an object, each on lines of its own. -/
def prettyFields (margin separator : String) : List (String × Json) → String
  | [] => ""
  | (key, value) :: rest =>
    separator ++ margin ++ quote key ++ ": " ++ value.prettyAt margin ++
      prettyFields margin ",\n" rest

end

def pretty (value : Json) : String :=
  value.prettyAt ""

end FilterQuery.Json
