import FilterQuery.Position
import FilterQuery.Token

/-!
# Lexemes

A lexeme is a token with the text that writes it and the place where that text starts. Where a text
has no next lexeme, a lexical error tells why and where.
-/

namespace FilterQuery

/-- A token in a text. -/
structure Lexeme where
  token : Token
  text : String
  position : Position
  deriving DecidableEq

/-- Why a text has no next lexeme. -/
inductive LexFault where
  | unterminatedString
  | invalidCharacter (c : Char)
  | malformedNumber (word : String)
  deriving DecidableEq

/-- A fault and the place that shows it. -/
structure LexError where
  position : Position
  fault : LexFault
  deriving DecidableEq

namespace LexFault

def message : LexFault → String
  | .unterminatedString => "unterminated string: missing closing quote"
  | .invalidCharacter c => "unexpected character '" ++ c.toString ++ "'"
  | .malformedNumber word => "malformed number `" ++ word ++ "`"

/-- Where a fault is reported, in a word that begins at `start` and is read up to `stop`: a
character that fits nowhere is the one the reading stopped at, a string or number is bad from its
beginning. -/
def place (start stop : Position) : LexFault → Position
  | .invalidCharacter _ => stop
  | _ => start

end LexFault

def LexError.message (e : LexError) : String :=
  e.fault.message ++ " at " ++ e.position.describe

end FilterQuery
