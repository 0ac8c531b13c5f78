import FilterQuery.Proofs.Spelling

/-!
# The words of the language

What a lexeme can be, told without reading: a word is a path of segments and reserved if it has no
point and is a reserved word up to case; a number is digits in the range of 64 bits or digits on
both sides of a point that do not round to infinity; a string is characters and pairs of a backslash
and a character between quotes; the symbols are listed. These are the texts that are read as one
token, and each has one token (`scan_of_lexical`, `lexical_of_scan`).
-/

namespace FilterQuery

namespace Quoted

/-- What may stand between two quotes, and what it stands for. -/
inductive Stands : List Char → List Char → Prop
  | nil : Stands [] []
  | plain {c : Char} {body value : List Char} (hq : c ≠ '\'') (hb : c ≠ '\\')
    (h : Stands body value) : Stands (c :: body) (c :: value)
  | escaped {c : Char} {body value : List Char} (hc : c = '\'' ∨ c = '\\')
    (h : Stands body value) : Stands ('\\' :: c :: body) (c :: value)
  | pair {c : Char} {body value : List Char} (hq : c ≠ '\'') (hb : c ≠ '\\')
    (h : Stands body value) : Stands ('\\' :: c :: body) ('\\' :: c :: value)

theorem split_of_stands {body value : List Char} (h : Stands body value) (rest : List Char) :
    split (body ++ '\'' :: rest) = some ⟨value, body ++ ['\''], rest⟩ := by
  induction h with
  | nil => rfl
  | plain hq hb _ ih =>
    rw [List.cons_append, split_cons hq hb, ih]
    rfl
  | escaped hc _ ih =>
    rw [List.cons_append, List.cons_append, split, ih]
    simp [unescape, hc]
  | pair hq hb _ ih =>
    rw [List.cons_append, List.cons_append, split, ih]
    simp [unescape, hq, hb]

theorem exists_stands_of_split {cs : List Char} {b : Body} (h : split cs = some b) :
    ∃ body, Stands body b.value ∧ b.text = body ++ ['\''] := by
  fun_induction split cs generalizing b with
  | case1 => cases h
  | case2 cs =>
    cases h
    exact ⟨[], .nil, rfl⟩
  | case3 c cs ih =>
    obtain ⟨b, hb, rfl⟩ := Option.map_eq_some_iff.1 h
    obtain ⟨body, hs, ht⟩ := ih hb
    refine ⟨'\\' :: c :: body, ?_, by simp [ht]⟩
    by_cases hc : c = '\'' ∨ c = '\\'
    · simpa [unescape, hc] using Stands.escaped hc hs
    · have hn := not_or.1 hc
      simpa [unescape, hc] using Stands.pair hn.1 hn.2 hs
  | case4 c cs hq hbs ih =>
    obtain ⟨b, hb, rfl⟩ := Option.map_eq_some_iff.1 h
    obtain ⟨body, hs, ht⟩ := ih hb
    exact ⟨c :: body, .plain hq (ne_backslash_of_split hbs hb) hs, by simp [ht]⟩

end Quoted

/-- A word and its token. -/
inductive IsWord : List Char → Token → Prop
  | reserved {x : List Char} {name : String} {t : Token} (hx : IsPath x) (hdot : '.' ∉ x)
    (h : (name, t) ∈ Token.reserved) (hname : x.map Char.toLower = name.toList) : IsWord x t
  | identifier {x : List Char} (hx : IsPath x)
    (h : '.' ∈ x ∨ ∀ entry ∈ Token.reserved, x.map Char.toLower ≠ entry.1.toList) :
    IsWord x (.identifier (String.ofList x))

/-- A number as it is written, and its value. -/
inductive IsNumber : List Char → Literal → Prop
  | whole (negative : Bool) {digits : List Char} {n : Int} (hne : digits ≠ [])
    (hd : ∀ c ∈ digits, c.isDigit = true)
    (hn : n = if negative then -(Decimal.natOfDigits digits : Int)
      else Decimal.natOfDigits digits) (hmin : -2 ^ 63 ≤ n) (hmax : n < 2 ^ 63) :
    IsNumber (signChars negative ++ digits) (.int n)
  | point {x : Finite64} {word : List Char} (h : x.IsNumeral word) :
    IsNumber word (.float (.finite x))

def symbols : List (List Char × Token) :=
  [(['('], .openParen), ([')'], .closeParen), ([','], .comma), (['='], .comparison .equal),
    (['!', '='], .comparison .notEqual), (['<'], .comparison .less),
    (['>'], .comparison .greater), (['<', '='], .comparison .lessEqual),
    (['>', '='], .comparison .greaterEqual)]

/-- The texts that are a lexeme, each with its token. -/
inductive Lexical : List Char → Token → Prop
  | word {x : List Char} {t : Token} (h : IsWord x t) : Lexical x t
  | number {x : List Char} {v : Literal} (h : IsNumber x v) : Lexical x (.literal v)
  | string {body value : List Char} (h : Quoted.Stands body value) :
    Lexical ('\'' :: (body ++ ['\''])) (.literal (.string (String.ofList value)))
  | symbol {x : List Char} {t : Token} (h : (x, t) ∈ symbols) : Lexical x t

section Words

variable {x : List Char} {t : Token}

theorem ofReserved?_eq_some_iff :
    Token.ofReserved? (String.ofList x) = some t ↔
      ∃ name, (name, t) ∈ Token.reserved ∧ x.map Char.toLower = name.toList := by
  rw [Token.ofReserved?, String.toList_ofList]
  refine ⟨fun h => ?_, fun ⟨name, h, hname⟩ => ?_⟩
  · obtain ⟨front, back, hl, -⟩ := List.lookup_eq_some_iff.1 h
    exact ⟨_, by rw [hl]; simp, (String.toList_ofList).symm⟩
  · have hall : ∀ entry ∈ Token.reserved, Token.reserved.lookup entry.1 = some entry.2 := by decide
    rw [hname, String.ofList_toList]
    exact hall _ h

/-- No reserved word has a point. -/
theorem not_mem_point {entry : String × Token} (h : entry ∈ Token.reserved)
    (hx : x.map Char.toLower = entry.1.toList) : '.' ∉ x := by
  have hall : ∀ entry ∈ Token.reserved, '.' ∉ entry.1.toList := by decide
  intro hdot
  exact hall entry h (hx ▸ List.mem_map.2 ⟨'.', hdot, rfl⟩)

theorem ofWord_of_isWord (h : IsWord x t) : Token.ofWord (String.ofList x) = t := by
  cases h with
  | reserved hx hdot h hname =>
    rw [Token.ofWord, ofReserved?_eq_some_iff.2 ⟨_, h, hname⟩]
    rfl
  | identifier hx h =>
    have hnone : Token.ofReserved? (String.ofList x) = none := by
      rw [Option.eq_none_iff_forall_ne_some]
      intro t ht
      obtain ⟨name, hmem, hname⟩ := ofReserved?_eq_some_iff.1 ht
      rcases h with hdot | hall
      · exact not_mem_point hmem hname hdot
      · exact hall _ hmem hname
    rw [Token.ofWord, hnone]
    rfl

theorem isWord_ofWord (hx : IsPath x) : IsWord x (.ofWord (String.ofList x)) := by
  rcases h : Token.ofReserved? (String.ofList x) with _ | t
  · rw [Token.ofWord, h]
    refine .identifier hx (.inr fun entry hmem hname => ?_)
    rw [ofReserved?_eq_some_iff.2 ⟨_, hmem, hname⟩] at h
    cases h
  · obtain ⟨name, hmem, hname⟩ := ofReserved?_eq_some_iff.1 h
    rw [Token.ofWord, h]
    exact .reserved hx (not_mem_point hmem hname) hmem hname

theorem IsWord.isPath (h : IsWord x t) : IsPath x := by
  cases h <;> assumption

theorem scan_of_isWord (h : IsWord x t) : scan x = ⟨.ok t, x, []⟩ := by
  obtain ⟨c, cs, rfl, hc⟩ := h.isPath.exists_cons
  rw [scan_of_isWordStart hc, scanWord_of_split (splitPath_of_isPath h.isPath) (by simp),
    ofWord_of_isWord h]

end Words

theorem isInt64_iff {n : Int} : isInt64 n = true ↔ -2 ^ 63 ≤ n ∧ n < 2 ^ 63 := by
  simp only [isInt64, Bool.and_eq_true, decide_eq_true_eq]
  omega

theorem scan_of_isNumber {x : List Char} {v : Literal} (h : IsNumber x v) :
    scan x = ⟨.ok (.literal v), x, []⟩ := by
  cases h with
  | @whole negative digits n hne hd hn hmin hmax =>
    obtain ⟨c, cs, rfl⟩ := List.exists_cons_of_ne_nil hne
    have hc : c.isDigit = true := hd c List.mem_cons_self
    refine scan_number negative hc (fun d h => .inl (hd d (List.mem_cons_of_mem c h))) ?_
    rw [Literal.ofNumber?_append_signChars negative hc,
      Literal.ofUnsigned?_whole negative hd hn.symm (isInt64_iff.2 ⟨hmin, hmax⟩)]
  | point h => exact scan_numeral h

theorem exists_ofUnsigned? (word : List Char) : ∃ negative digits,
    word = signChars negative ++ digits ∧
      Literal.ofNumber? word = Literal.ofUnsigned? negative digits := by
  unfold Literal.ofNumber?
  split
  rename_i negative digits heq
  refine ⟨negative, digits, ?_, rfl⟩
  split at heq <;> cases heq <;> rfl

theorem isNumber_of_ofNumber? {word : List Char} {v : Literal}
    (h : Literal.ofNumber? word = some v) : IsNumber word v := by
  obtain ⟨negative, digits, rfl, heq⟩ := exists_ofUnsigned? word
  rw [heq, Literal.ofUnsigned?] at h
  obtain ⟨whole, hwhole⟩ : ∃ whole, whole = digits.takeWhile Char.isDigit := ⟨_, rfl⟩
  have hd : ∀ c ∈ whole, c.isDigit = true := fun c hc => List.mem_takeWhile_imp (hwhole ▸ hc)
  have hsplit : digits = whole ++ digits.dropWhile Char.isDigit := by
    rw [hwhole, List.takeWhile_append_dropWhile]
  rw [← hwhole] at h
  split at h
  · cases h
  rename_i hne
  split at h
  · rename_i hdrop
    rw [Option.ite_none_right_eq_some] at h
    obtain ⟨h64, hv⟩ := h
    obtain ⟨hmin, hmax⟩ := isInt64_iff.1 h64
    rw [hdrop, List.append_nil] at hsplit
    rw [hsplit, ← Option.some.inj hv]
    exact .whole negative hne hd rfl hmin hmax
  · rename_i fraction hdrop
    rw [Option.ite_none_right_eq_some] at h
    obtain ⟨⟨hf, hall⟩, hv⟩ := h
    obtain ⟨x, hx, rfl⟩ := Option.map_eq_some_iff.1 hv
    have hfinite : ∀ {y : Binary64}, y.finite? = some x → y = .finite x := by
      intro y hy
      cases y with
      | finite z => exact congrArg _ (Option.some.inj hy)
      | infinite | nan => cases hy
    refine .point ⟨negative, whole, fraction, hne, hf, hd, List.all_eq_true.1 hall, ?_, hfinite hx⟩
    rw [← hdrop, ← hsplit]
  · cases h

section Lexical

variable {x cs text rest : List Char} {t : Token}

theorem mem_symbols_of_splitSymbol (h : splitSymbol cs = some (t, text, rest)) :
    (text, t) ∈ symbols := by
  unfold splitSymbol at h
  split at h <;> cases h <;> decide

theorem scan_of_lexical (h : Lexical x t) : scan x = ⟨.ok t, x, []⟩ := by
  cases h with
  | word h => exact scan_of_isWord h
  | number h => exact scan_of_isNumber h
  | string h => rw [scan_of_quote, scanString, Quoted.split_of_stands h]
  | symbol h =>
    have hall : ∀ entry ∈ symbols, splitSymbol entry.1 = some (entry.2, entry.1, []) := by decide
    exact scan_of_symbol (hall _ h)

theorem lexical_of_scan (h : scan cs = ⟨.ok t, text, rest⟩) (ht : t ≠ .endOfInput) :
    Lexical text t := by
  obtain rfl : (scan cs).text = text := congrArg Scan.text h
  rcases scan_cases (congrArg Scan.outcome h) ht with hs | ⟨ds, body, rfl, hb, rfl⟩ |
    ⟨c, ds, rfl, hw, -, hword⟩ | ⟨c, ds, v, rfl, hn, hv, rfl⟩
  · exact .symbol (mem_symbols_of_splitSymbol hs)
  · obtain ⟨inner, hs, htext⟩ := Quoted.exists_stands_of_split hb
    rw [scan_of_quote, scanString, hb]
    simp only [htext]
    exact .string hs
  · rw [scan_of_isWordStart hw, hword]
    exact .word (isWord_ofWord (isPath_splitPath hw ds))
  · rw [scan_of_isNumberStart hn]
    exact .number (isNumber_of_ofNumber? hv)

theorem Lexical.eq {u : Token} (ht : Lexical x t) (hu : Lexical x u) : t = u := by
  have h := scan_of_lexical ht
  rw [scan_of_lexical hu] at h
  cases h
  rfl

end Lexical

end FilterQuery
