import FilterQuery.Text.Unprintable

/-!
# Escaped strings

How a listing shows a string on one line: between double quotes, with short escapes for the
quote, the backslash, tab, line feed, carriage return and the null character, and the code point
in hexadecimal for every other unprintable character.
-/

namespace FilterQuery.Escaped

def char (c : Char) : List Char :=
  if c = '"' then ['\\', '"']
  else if c = '\\' then ['\\', '\\']
  else if c = '\n' then ['\\', 'n']
  else if c = '\r' then ['\\', 'r']
  else if c = '\t' then ['\\', 't']
  else if c = Char.ofNat 0 then ['\\', '0']
  else if isUnprintable c then '\\' :: 'u' :: '\x7b' :: (Nat.toDigits 16 c.toNat ++ ['\x7d'])
  else [c]

def encode (s : String) : String :=
  String.ofList ('"' :: (s.toList.flatMap char ++ ['"']))

end FilterQuery.Escaped
