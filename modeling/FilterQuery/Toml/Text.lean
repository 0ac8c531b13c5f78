import FilterQuery.Toml.Basic

/-!
# Blanks, strings and keys in TOML

Strings come in four forms: with escapes between double quotes, literally between single quotes, and
both over several lines between three quotes. A line end is a line feed, with or without a carriage
return in front; a carriage return of its own is nowhere allowed.
-/

namespace FilterQuery.Toml

def isSpace (c : Char) : Bool :=
  c = ' ' || c = '\t'

/-- What a comment may hold: everything but controls, the tab excepted. -/
def isPlain (c : Char) : Bool :=
  c = '\t' || (0x20 ≤ c.toNat && c.toNat ≠ 0x7F)

def isBasic (c : Char) : Bool :=
  isPlain c && c ≠ '"' && c ≠ '\\'

def isLiteral (c : Char) : Bool :=
  isPlain c && c ≠ '\''

def skipSpaces (cs : List Char) : List Char :=
  cs.dropWhile isSpace

def newline? : List Char → Option (List Char)
  | '\n' :: cs => some cs
  | '\r' :: '\n' :: cs => some cs
  | _ => none

/-- What is left behind a comment, if there is one here. -/
def skipComment : List Char → List Char
  | '#' :: cs => cs.dropWhile isPlain
  | cs => cs

/-- What is left behind the end of a line, a comment in front of it included. The end of the text
ends a line too. -/
def lineEnd? (cs : List Char) : Option (List Char) :=
  match skipComment (skipSpaces cs) with
  | [] => some []
  | rest => newline? rest

/-- Reads blanks, comments and line ends with at most `fuel` line ends among them. -/
def skipLinesFrom : Nat → List Char → Option (List Char)
  | 0, _ => none
  | fuel + 1, cs =>
    match skipSpaces cs with
    | '#' :: rest => (newline? (rest.dropWhile isPlain)).bind (skipLinesFrom fuel)
    | rest =>
      match newline? rest with
      | some rest => skipLinesFrom fuel rest
      | none => some rest

/-- What is left behind blanks, comments and line ends. -/
def skipLines (cs : List Char) : Option (List Char) :=
  skipLinesFrom (cs.length + 1) cs

/-- The digit that a character is in base sixteen. -/
def hexDigit? (c : Char) : Option Nat :=
  if c.isDigit then some (c.toNat - '0'.toNat)
  else if 'a' ≤ c && c ≤ 'f' then some (c.toNat - 'a'.toNat + 10)
  else if 'A' ≤ c && c ≤ 'F' then some (c.toNat - 'A'.toNat + 10)
  else none

/-- The character that hexadecimal digits number. -/
def charOfHex? (digits : List Char) : Option Char := do
  let n ← digits.foldlM (fun n c => (hexDigit? c).map (16 * n + ·)) 0
  if n.isValidChar then some (Char.ofNat n) else none

/-- The character that a backslash and a letter stand for. -/
def shortEscape? : Char → Option Char
  | 'b' => some '\x08'
  | 't' => some '\t'
  | 'n' => some '\n'
  | 'f' => some '\x0c'
  | 'r' => some '\r'
  | '"' => some '"'
  | '\\' => some '\\'
  | _ => none

/-- Reads an escape from behind its backslash. -/
def readEscape : Reader Char
  | 'u' :: a :: b :: c :: d :: cs => (charOfHex? [a, b, c, d]).map (·, cs)
  | 'U' :: a :: b :: c :: d :: e :: f :: g :: h :: cs =>
    (charOfHex? [a, b, c, d, e, f, g, h]).map (·, cs)
  | c :: cs => (shortEscape? c).map (·, cs)
  | [] => none

def readBasicFrom : Nat → Reader (List Char)
  | 0, _ => none
  | fuel + 1, cs =>
    match cs with
    | [] => none
    | '"' :: rest => some ([], rest)
    | '\\' :: rest => do
      let (c, rest) ← readEscape rest
      let (value, rest) ← readBasicFrom fuel rest
      return (c :: value, rest)
    | c :: rest =>
      if isBasic c then (readBasicFrom fuel rest).map fun (value, rest) => (c :: value, rest)
      else none

def readLiteral : Reader (List Char)
  | [] => none
  | '\'' :: cs => some ([], cs)
  | c :: cs =>
    if isLiteral c then (readLiteral cs).map fun (value, rest) => (c :: value, rest) else none

/-- Up to two quotes in front of the three that close a string belong to the string. Reads them from
behind the first three quotes. -/
def closing (quote : Char) : Reader (List Char)
  | c :: d :: cs =>
    if c = quote && d = quote then some ([quote, quote], cs)
    else if c = quote then some ([quote], d :: cs)
    else some ([], c :: d :: cs)
  | [c] => if c = quote then some ([quote], []) else some ([], [c])
  | [] => some ([], [])

/-- What is left behind blanks, a line end, and all blanks and line ends that follow. This is what a
backslash at the end of a line leaves out. -/
def foldedLine? (cs : List Char) : Option (List Char) :=
  match newline? (skipSpaces cs) with
  | none => none
  | some rest => some (skipFolded rest)
where
  /-- What is left behind blanks and line ends. -/
  skipFolded : List Char → List Char
    | '\r' :: '\n' :: cs => skipFolded cs
    | c :: cs => if isSpace c || c = '\n' then skipFolded cs else c :: cs
    | [] => []

/-- Reads a string over several lines from behind its three double quotes. -/
def readLongBasicFrom : Nat → Reader (List Char)
  | 0, _ => none
  | fuel + 1, cs =>
    match cs with
    | [] => none
    | '"' :: '"' :: '"' :: rest => closing '"' rest
    | '"' :: rest => (readLongBasicFrom fuel rest).map fun (value, rest) => ('"' :: value, rest)
    | '\\' :: rest =>
      match foldedLine? rest with
      | some rest => readLongBasicFrom fuel rest
      | none => do
        let (c, rest) ← readEscape rest
        let (value, rest) ← readLongBasicFrom fuel rest
        return (c :: value, rest)
    | c :: rest =>
      match newline? (c :: rest) with
      | some rest => (readLongBasicFrom fuel rest).map fun (value, rest) => ('\n' :: value, rest)
      | none =>
        if isBasic c then (readLongBasicFrom fuel rest).map fun (value, rest) => (c :: value, rest)
        else none

/-- Reads a string over several lines from behind its three single quotes. -/
def readLongLiteral : Reader (List Char)
  | [] => none
  | '\'' :: '\'' :: '\'' :: cs => closing '\'' cs
  | '\'' :: cs => (readLongLiteral cs).map fun (value, rest) => ('\'' :: value, rest)
  | '\r' :: '\n' :: cs => (readLongLiteral cs).map fun (value, rest) => ('\n' :: value, rest)
  | c :: cs =>
    if isLiteral c || c = '\n' then
      (readLongLiteral cs).map fun (value, rest) => (c :: value, rest)
    else none

/-- A line end right behind the opening quotes does not belong to the string. -/
def skipFirstLineEnd (cs : List Char) : List Char :=
  (newline? cs).getD cs

def readShortString : Reader String
  | '"' :: cs => (readBasicFrom (cs.length + 1) cs).map fun (value, rest) => (.ofList value, rest)
  | '\'' :: cs => (readLiteral cs).map fun (value, rest) => (.ofList value, rest)
  | _ => none

def readString : Reader String
  | '"' :: '"' :: '"' :: cs =>
    (readLongBasicFrom (cs.length + 1) (skipFirstLineEnd cs)).map fun (value, rest) =>
      (.ofList value, rest)
  | '\'' :: '\'' :: '\'' :: cs =>
    (readLongLiteral (skipFirstLineEnd cs)).map fun (value, rest) => (.ofList value, rest)
  | cs => readShortString cs

def isBareKeyChar (c : Char) : Bool :=
  c.isAlphanum || c = '_' || c = '-'

def readSegment (cs : List Char) : Option (String × List Char) :=
  match readShortString cs with
  | some result => some result
  | none =>
    match cs.takeWhile isBareKeyChar with
    | [] => none
    | bare => some (.ofList bare, cs.dropWhile isBareKeyChar)

/-- The names that lead to a value from the table it is written in. -/
structure KeyPath where
  parents : List String
  name : String

/-- A key may not have as many segments, nor values as many levels. -/
def maxDepth : Nat := 80

def readPathFrom : Nat → Reader KeyPath
  | 0, _ => none
  | fuel + 1, cs => do
    let (segment, rest) ← readSegment (skipSpaces cs)
    match skipSpaces rest with
    | '.' :: rest =>
      let (path, rest) ← readPathFrom fuel rest
      return (⟨segment :: path.parents, path.name⟩, rest)
    | rest => return (⟨[], segment⟩, rest)

def readPath : Reader KeyPath :=
  readPathFrom (maxDepth - 1)

end FilterQuery.Toml
