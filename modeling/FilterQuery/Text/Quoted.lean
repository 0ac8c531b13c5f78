/-!
# Quoted strings

How a query writes a string: between two single quotes, with a backslash in front of every quote
and every backslash. These are written in two passes, the backslashes first, which come to one
(`escape_cons`). Reading is more lenient than writing: a backslash in front of any other character
stands for itself, and so does that character. No character is lost: what is read and what follows
it make up the text (`split_append`).
-/

namespace FilterQuery.Quoted

/-- Puts a backslash in front of every `mark`. -/
def escapeMark (mark : Char) (cs : List Char) : List Char :=
  cs.flatMap fun c => if c = mark then ['\\', c] else [c]

/-- Puts a backslash in front of every backslash and then in front of every quote. -/
def escape (cs : List Char) : List Char :=
  escapeMark '\'' (escapeMark '\\' cs)

def encode (s : String) : String :=
  String.ofList ('\'' :: (escape s.toList ++ ['\'']))

/-- What a backslash in front of `c` stands for. -/
def unescape (c : Char) : List Char :=
  if c = '\'' ∨ c = '\\' then [c] else ['\\', c]

/-- A string without its opening quote: what it stands for, how it is written, its closing quote
included, and what follows it. -/
structure Body where
  value : List Char
  text : List Char
  rest : List Char

/-- Reads a string from behind its opening quote; `none` if no quote closes it. -/
def split : List Char → Option Body
  | [] => none
  | '\'' :: cs => some ⟨[], ['\''], cs⟩
  | '\\' :: c :: cs =>
    (split cs).map fun b => ⟨unescape c ++ b.value, '\\' :: c :: b.text, b.rest⟩
  | c :: cs => (split cs).map fun b => ⟨c :: b.value, c :: b.text, b.rest⟩

/-- No backslash of the first pass gets another one in the second. -/
theorem escape_cons (c : Char) (cs : List Char) : escape (c :: cs) =
    if c = '\'' ∨ c = '\\' then '\\' :: c :: escape cs else c :: escape cs := by
  by_cases hb : c = '\\'
  · simp [escape, escapeMark, hb]
  · by_cases hq : c = '\'' <;> simp [escape, escapeMark, hb, hq]

theorem split_append {cs : List Char} {body : Body} (h : split cs = some body) :
    body.text ++ body.rest = cs := by
  fun_induction split cs generalizing body with
  | case1 => cases h
  | case2 cs => cases h; rfl
  | case3 c cs ih =>
    obtain ⟨b, hb, rfl⟩ := Option.map_eq_some_iff.1 h
    simp [ih hb]
  | case4 c cs _ _ ih =>
    obtain ⟨b, hb, rfl⟩ := Option.map_eq_some_iff.1 h
    simp [ih hb]

end FilterQuery.Quoted
