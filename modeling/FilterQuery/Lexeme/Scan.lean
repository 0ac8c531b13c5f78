import FilterQuery.Lexeme.Basic
import FilterQuery.Text.Blank

/-!
# Scanning one lexeme

`scan` reads the lexeme at the front of a text that does not start with a blank. Whatever it finds,
the text it has read and the text it has left make up the text it was given
(`text_append_rest_scan`), and a token other than the end of input has a text (`text_scan_ne_nil`).
-/

namespace FilterQuery

/-- Whether a segment of an identifier may start with `c`. -/
def isWordStart (c : Char) : Bool :=
  c.isAlpha || c = '_'

/-- Whether `c` may stand inside a segment of an identifier. -/
def isWordChar (c : Char) : Bool :=
  c.isAlphanum || c = '_'

/-- Whether `c` may stand inside a number or be glued to one. -/
def isNumberChar (c : Char) : Bool :=
  isWordChar c || c = '.'

def startsSegment : List Char → Bool
  | [] => false
  | c :: _ => isWordStart c

/-- Parts `cs` into the identifier it goes on with and the rest. A point belongs to the identifier
if a segment starts behind it. -/
def splitPath : List Char → List Char × List Char
  | [] => ([], [])
  | c :: cs =>
    if isWordChar c || (c = '.' && startsSegment cs) then
      (c :: (splitPath cs).1, (splitPath cs).2)
    else ([], c :: cs)

/-- Parts `cs` into the number word it starts with, well formed or not, and the rest. -/
def splitNumber : List Char → List Char × List Char
  | '-' :: cs => ('-' :: cs.takeWhile isNumberChar, cs.dropWhile isNumberChar)
  | cs => (cs.takeWhile isNumberChar, cs.dropWhile isNumberChar)

/-- Whether `n` is a whole number of 64 bits, from `-2 ^ 63` to `2 ^ 63 - 1`. -/
def isInt64 (n : Int) : Bool :=
  -9223372036854775808 ≤ n && n ≤ 9223372036854775807

/-- The literal that a number word writes: digits alone are a whole number, which must have 64 bits;
digits on both sides of a point are a number with a point, which must not round to infinity. -/
def Literal.ofNumber? (word : List Char) : Option Literal :=
  let (negative, digits) := match word with
    | '-' :: cs => (true, cs)
    | cs => (false, cs)
  let whole := digits.takeWhile Char.isDigit
  if whole = [] then none
  else match digits.dropWhile Char.isDigit with
    | [] =>
      let n : Int := Decimal.natOfDigits whole
      let n := if negative then -n else n
      if isInt64 n then some (.int n) else none
    | '.' :: fraction =>
      if fraction ≠ [] ∧ fraction.all Char.isDigit then
        (Binary64.ofDecimal (.ofDigits negative whole fraction 0)).finite?.map fun x =>
          .float (.finite x)
      else none
    | _ => none

/-- The outcome of reading one lexeme: the token or the fault, the text read, the text left. -/
structure Scan where
  outcome : Except LexFault Token
  text : List Char
  rest : List Char

def splitSymbol : List Char → Option (Token × List Char × List Char)
  | '(' :: cs => some (.openParen, ['('], cs)
  | ')' :: cs => some (.closeParen, [')'], cs)
  | ',' :: cs => some (.comma, [','], cs)
  | '=' :: cs => some (.comparison .equal, ['='], cs)
  | '!' :: '=' :: cs => some (.comparison .notEqual, ['!', '='], cs)
  | '<' :: '=' :: cs => some (.comparison .lessEqual, ['<', '='], cs)
  | '<' :: cs => some (.comparison .less, ['<'], cs)
  | '>' :: '=' :: cs => some (.comparison .greaterEqual, ['>', '='], cs)
  | '>' :: cs => some (.comparison .greater, ['>'], cs)
  | _ => none

/-- Reads an identifier or a reserved word. A point behind it that starts no segment is a fault, and
is not read. -/
def scanWord (cs : List Char) : Scan where
  outcome := match (splitPath cs).2 with
    | '.' :: _ => .error (.invalidCharacter '.')
    | _ => .ok (.ofWord (String.ofList (splitPath cs).1))
  text := (splitPath cs).1
  rest := (splitPath cs).2

def scanString (cs : List Char) : Scan :=
  match Quoted.split cs with
  | some body => ⟨.ok (.literal (.string (String.ofList body.value))), '\'' :: body.text, body.rest⟩
  | none => ⟨.error .unterminatedString, '\'' :: cs, []⟩

def scanNumber (cs : List Char) : Scan where
  outcome := match Literal.ofNumber? (splitNumber cs).1 with
    | some value => .ok (.literal value)
    | none => .error (.malformedNumber (String.ofList (splitNumber cs).1))
  text := (splitNumber cs).1
  rest := (splitNumber cs).2

/-- Reads the lexeme at the front of a text without a blank in front. -/
def scan (cs : List Char) : Scan :=
  match splitSymbol cs with
  | some (token, text, rest) => ⟨.ok token, text, rest⟩
  | none =>
    match cs with
    | [] => ⟨.ok .endOfInput, [], []⟩
    | c :: rest =>
      if c = '\'' then scanString rest
      else if isWordStart c then scanWord (c :: rest)
      else if c.isDigit || c = '-' || c = '.' then scanNumber (c :: rest)
      else ⟨.error (.invalidCharacter c), [], c :: rest⟩

theorem splitPath_append : ∀ cs : List Char, (splitPath cs).1 ++ (splitPath cs).2 = cs
  | [] => rfl
  | c :: cs => by
    unfold splitPath
    split <;> simp [splitPath_append cs]

theorem isWordChar_of_isWordStart {c : Char} (h : isWordStart c = true) : isWordChar c = true := by
  simp only [isWordStart, isWordChar, Char.isAlphanum, Bool.or_eq_true] at h ⊢
  rcases h with h | h <;> simp [h]

theorem splitPath_ne_nil {c : Char} (cs : List Char) (h : isWordStart c = true) :
    (splitPath (c :: cs)).1 ≠ [] := by
  simp [splitPath, isWordChar_of_isWordStart h]

theorem splitNumber_append (cs : List Char) : (splitNumber cs).1 ++ (splitNumber cs).2 = cs := by
  unfold splitNumber
  split <;> simp

theorem isNumberChar_of_isDigit {c : Char} (h : c.isDigit = true) : isNumberChar c = true := by
  simp [isNumberChar, isWordChar, Char.isAlphanum, h]

theorem splitNumber_ne_nil {c : Char} (cs : List Char)
    (h : (c.isDigit || c = '-' || c = '.') = true) : (splitNumber (c :: cs)).1 ≠ [] := by
  unfold splitNumber
  split
  · simp
  · rename_i hm
    have hc : isNumberChar c = true := by
      simp only [Bool.or_eq_true, decide_eq_true_eq] at h
      rcases h with (h | rfl) | rfl
      · exact isNumberChar_of_isDigit h
      · exact absurd rfl (hm cs)
      · decide
    simp [hc]

theorem splitSymbol_append {cs text rest : List Char} {token : Token}
    (h : splitSymbol cs = some (token, text, rest)) : text ++ rest = cs := by
  unfold splitSymbol at h
  split at h <;> simp_all <;> (obtain ⟨-, rfl, rfl⟩ := h; rfl)

theorem splitSymbol_ne_nil {cs text rest : List Char} {token : Token}
    (h : splitSymbol cs = some (token, text, rest)) : text ≠ [] := by
  unfold splitSymbol at h
  split at h <;> simp_all <;> (obtain ⟨-, rfl, -⟩ := h; simp)

theorem scanString_append (cs : List Char) :
    (scanString cs).text ++ (scanString cs).rest = '\'' :: cs := by
  unfold scanString
  split
  · rename_i h
    simp [Quoted.split_append h]
  · simp

theorem scanString_ne_nil (cs : List Char) : (scanString cs).text ≠ [] := by
  unfold scanString
  split <;> simp

/-- Reading loses nothing. -/
theorem text_append_rest_scan (cs : List Char) : (scan cs).text ++ (scan cs).rest = cs := by
  unfold scan
  split
  · rename_i h
    exact splitSymbol_append h
  · split
    · rfl
    · split
      · rename_i hc
        subst hc
        exact scanString_append _
      · split
        · exact splitPath_append _
        · split
          · exact splitNumber_append _
          · rfl

/-- Only the end of input is read without reading a character. -/
theorem text_scan_ne_nil {cs : List Char} {token : Token} (h : (scan cs).outcome = .ok token)
    (ht : token ≠ .endOfInput) : (scan cs).text ≠ [] := by
  unfold scan at h ⊢
  split
  · rename_i hs
    exact splitSymbol_ne_nil hs
  · rename_i hs
    simp only [hs] at h
    split
    · cases h
      exact absurd rfl ht
    · split
      · exact scanString_ne_nil _
      · rename_i hc
        split
        · rename_i hw
          exact splitPath_ne_nil _ hw
        · rename_i hw
          split
          · rename_i hn
            exact splitNumber_ne_nil _ hn
          · rename_i hn
            simp [hc, hw, hn] at h

end FilterQuery
