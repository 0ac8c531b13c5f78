import FilterQuery.Literal
import FilterQuery.Text.Escaped

/-!
# Tokens

The words of the query language. A reserved word is one in any mix of capital and small letters.
-/

namespace FilterQuery

/-- A relation between the value of an identifier and a literal. -/
inductive Comparison where
  | equal
  | notEqual
  | less
  | greater
  | lessEqual
  | greaterEqual
  deriving DecidableEq

def Comparison.toText : Comparison → String
  | .equal => "="
  | .notEqual => "!="
  | .less => "<"
  | .greater => ">"
  | .lessEqual => "<="
  | .greaterEqual => ">="

/-- A reserved word that is no literal. -/
inductive Keyword where
  | and
  | or
  | not
  | inList
  | order
  | byKeys
  | asc
  | desc
  deriving DecidableEq

def Keyword.toText : Keyword → String
  | .and => "AND"
  | .or => "OR"
  | .not => "NOT"
  | .inList => "IN"
  | .order => "ORDER"
  | .byKeys => "BY"
  | .asc => "ASC"
  | .desc => "DESC"

/-- A word of a query; `endOfInput` stands behind the last one. -/
inductive Token where
  | literal (value : Literal)
  | identifier (name : String)
  | comparison (op : Comparison)
  | keyword (word : Keyword)
  | openParen
  | closeParen
  | comma
  | endOfInput
  deriving DecidableEq

namespace Token

def reserved : List (String × Token) :=
  [("and", .keyword .and), ("or", .keyword .or), ("not", .keyword .not),
    ("in", .keyword .inList), ("order", .keyword .order), ("by", .keyword .byKeys),
    ("asc", .keyword .asc), ("desc", .keyword .desc), ("true", .literal (.bool true)),
    ("false", .literal (.bool false)), ("null", .literal .null)]

def ofReserved? (word : String) : Option Token :=
  reserved.lookup (String.ofList (word.toList.map Char.toLower))

/-- The token of a word: a reserved word, or else an identifier. -/
def ofWord (word : String) : Token :=
  (ofReserved? word).getD (.identifier word)

/-- A token as a query writes it, except that a string is not escaped. -/
def toText : Token → String
  | .literal (.string s) => "'" ++ s ++ "'"
  | .literal value => value.toText
  | .identifier name => name
  | .comparison op => op.toText
  | .keyword word => word.toText
  | .openParen => "("
  | .closeParen => ")"
  | .comma => ","
  | .endOfInput => "<eof>"

def describe (t : Token) : String :=
  match t with
  | .literal .null => "null"
  | .literal (.bool _) => "boolean " ++ t.toText
  | .literal (.int _) => "number " ++ t.toText
  | .literal (.float _) => "number " ++ t.toText
  | .literal (.string _) => "string " ++ t.toText
  | .identifier name => "identifier `" ++ name ++ "`"
  | .endOfInput => "end of input"
  | _ => "`" ++ t.toText ++ "`"

def kind : Token → String
  | .literal .null => "Null"
  | .literal (.bool _) => "Boolean"
  | .literal (.int _) => "Integer"
  | .literal (.float _) => "Float"
  | .literal (.string _) => "String"
  | .identifier _ => "Identifier"
  | .comparison .equal => "Eq"
  | .comparison .notEqual => "NotEq"
  | .comparison .less => "Lt"
  | .comparison .greater => "Gt"
  | .comparison .lessEqual => "LtEq"
  | .comparison .greaterEqual => "GtEq"
  | .keyword .and => "And"
  | .keyword .or => "Or"
  | .keyword .not => "Not"
  | .keyword .inList => "In"
  | .keyword .order => "Order"
  | .keyword .byKeys => "By"
  | .keyword .asc => "Asc"
  | .keyword .desc => "Desc"
  | .openParen => "LParen"
  | .closeParen => "RParen"
  | .comma => "Comma"
  | .endOfInput => "Eof"

/-- A token as listings give it: its kind, and its value in parentheses if it has one. -/
def listing (t : Token) : String :=
  match t with
  | .literal .null => t.kind
  | .literal (.string s) => t.kind ++ "(" ++ Escaped.encode s ++ ")"
  | .literal _ => t.kind ++ "(" ++ t.toText ++ ")"
  | .identifier name => t.kind ++ "(" ++ Escaped.encode name ++ ")"
  | _ => t.kind

end Token

end FilterQuery
