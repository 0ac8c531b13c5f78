import FilterQuery.Lexeme.Scan
import Mathlib.Data.List.TakeWhile

/-!
# Where a lexeme ends

Of what stands behind the text of a token, only the first character can change how the token is
read, and for each token it is known which characters do (`Token.gluesTo`). No such character
stands behind a token that has been read (`not_glued_scan`), and whatever else stands there, the
same token is read again (`scan_append`).
-/

namespace FilterQuery

/-- Whether a character right behind the text of a token would be read along with it. -/
def Token.gluesTo : Token → Char → Bool
  | .literal (.string _), _ => false
  | .literal _, c => isNumberChar c
  | .identifier _, c => isNumberChar c
  | .keyword _, c => isNumberChar c
  | .comparison .less, c => c = '='
  | .comparison .greater, c => c = '='
  | _, _ => false

section Classes

variable {c : Char} {p : Char → Bool}

theorem ne_of_class {d : Char} (h : p c = true) (hd : p d = false) : c ≠ d := by
  rintro rfl
  rw [h] at hd
  cases hd

theorem isDigit_iff_toNat : c.isDigit = true ↔ 48 ≤ c.toNat ∧ c.toNat ≤ 57 := by
  simp only [Char.isDigit, Bool.and_eq_true, decide_eq_true_eq, UInt32.le_iff_toNat_le, ge_iff_le]
  exact Iff.rfl

theorem isAlpha_iff_toNat : c.isAlpha = true ↔
    (65 ≤ c.toNat ∧ c.toNat ≤ 90) ∨ 97 ≤ c.toNat ∧ c.toNat ≤ 122 := by
  change (decide (c.val ≥ 65 ∧ c.val ≤ 90) || (c.val ≥ 97 && c.val ≤ 122)) = true ↔ _
  simp only [Bool.or_eq_true, Bool.and_eq_true, decide_eq_true_eq, UInt32.le_iff_toNat_le,
    ge_iff_le]
  exact Iff.rfl

theorem toNat_of_isNumberChar (h : isNumberChar c = true) :
    c.toNat = 46 ∨ 48 ≤ c.toNat ∧ c.toNat ≤ 122 := by
  simp only [isNumberChar, isWordChar, Char.isAlphanum, Bool.or_eq_true, decide_eq_true_eq,
    isAlpha_iff_toNat, isDigit_iff_toNat] at h
  rcases h with ((h | h) | rfl) | rfl
  · omega
  · omega
  · decide
  · decide

theorem not_isNumberChar_of_isBlank (h : isBlank c = true) : isNumberChar c = false := by
  rw [← Bool.not_eq_true]
  intro hc
  have hn := toNat_of_isNumberChar hc
  simp only [isBlank, blankRuns, List.any_cons, List.any_nil, Bool.or_false, Bool.or_eq_true,
    Bool.and_eq_true, decide_eq_true_eq] at h
  omega

/-- No token goes on with any other character. -/
theorem not_gluesTo (hn : isNumberChar c = false) (he : c ≠ '=') (t : Token) :
    t.gluesTo c = false := by
  unfold Token.gluesTo
  split <;> simp [hn, he]

theorem not_gluesTo_of_isBlank (h : isBlank c = true) (t : Token) : t.gluesTo c = false :=
  not_gluesTo (not_isNumberChar_of_isBlank h) (ne_of_class h (by decide)) t

theorem isNumberChar_of_isWordStart (h : isWordStart c = true) : isNumberChar c = true := by
  simp [isNumberChar, isWordChar_of_isWordStart h]

/-- The characters that symbols begin with. -/
def isSymbolStart (c : Char) : Bool :=
  c ∈ ['(', ')', ',', '=', '!', '<', '>']

theorem splitSymbol_eq_none (h : isSymbolStart c = false) (cs : List Char) :
    splitSymbol (c :: cs) = none := by
  unfold splitSymbol
  split <;> simp_all [isSymbolStart]

theorem not_isSymbolStart (h : p c = true)
    (hp : ['(', ')', ',', '=', '!', '<', '>'].all (p · = false) = true := by decide) :
    isSymbolStart c = false := by
  simp only [isSymbolStart, decide_eq_false_iff_not]
  intro hc
  simpa [h] using List.all_eq_true.1 hp c hc

end Classes

section Front

variable {c : Char} {cs text rest : List Char} {t : Token}

theorem scan_of_symbol (h : splitSymbol cs = some (t, text, rest)) :
    scan cs = ⟨.ok t, text, rest⟩ := by
  unfold scan
  rw [h]

theorem scan_of_quote (cs : List Char) : scan ('\'' :: cs) = scanString cs := by
  rw [scan, splitSymbol_eq_none (by decide)]
  rfl

theorem scan_of_isWordStart (h : isWordStart c = true) (cs : List Char) :
    scan (c :: cs) = scanWord (c :: cs) := by
  have hq : c ≠ '\'' := ne_of_class h (by decide)
  rw [scan, splitSymbol_eq_none (not_isSymbolStart h)]
  simp only [if_neg hq, if_pos h]

def isNumberStart (c : Char) : Bool :=
  c.isDigit || c = '-' || c = '.'

theorem scan_of_isNumberStart (h : isNumberStart c = true) (cs : List Char) :
    scan (c :: cs) = scanNumber (c :: cs) := by
  have hq : c ≠ '\'' := ne_of_class h (by decide)
  have hw : isWordStart c = false := by
    simp only [isNumberStart, Bool.or_eq_true, decide_eq_true_eq] at h
    rcases h with (h | rfl) | rfl
    · have hu : c ≠ '_' := ne_of_class h (by decide)
      have ha : c.isAlpha = false := by
        rw [← Bool.not_eq_true, isAlpha_iff_toNat]
        rw [isDigit_iff_toNat] at h
        omega
      simp [isWordStart, ha, hu]
    · decide
    · decide
  rw [scan, splitSymbol_eq_none (not_isSymbolStart h)]
  simp only [if_neg hq, hw]
  exact if_pos h

theorem not_isWordChar_head_splitPath : ∀ cs : List Char,
    ∀ d ∈ (splitPath cs).2.head?, isWordChar d = false
  | [], d, h => by simp [splitPath] at h
  | c :: cs, d, h => by
    rw [splitPath] at h
    split at h
    · exact not_isWordChar_head_splitPath cs d h
    · rename_i hc
      simp only [List.head?_cons, Option.mem_some_iff] at h
      subst h
      simp_all

/-- The front of a text decides what reads it. -/
theorem scan_front (cs : List Char) :
    (∃ t text rest, splitSymbol cs = some (t, text, rest) ∧ scan cs = ⟨.ok t, text, rest⟩) ∨
    (cs = [] ∧ scan cs = ⟨.ok .endOfInput, [], []⟩) ∨
    (∃ ds, cs = '\'' :: ds ∧ scan cs = scanString ds) ∨
    (∃ c ds, cs = c :: ds ∧ isWordStart c = true ∧ scan cs = scanWord cs) ∨
    (∃ c ds, cs = c :: ds ∧ isNumberStart c = true ∧ scan cs = scanNumber cs) ∨
    ∃ c ds, cs = c :: ds ∧ scan cs = ⟨.error (.invalidCharacter c), [], cs⟩ := by
  rcases hs : splitSymbol cs with _ | ⟨t, text, rest⟩
  · right
    cases cs with
    | nil => exact .inl ⟨rfl, rfl⟩
    | cons c ds =>
      by_cases hq : c = '\''
      · subst hq
        exact .inr (.inl ⟨ds, rfl, scan_of_quote ds⟩)
      by_cases hw : isWordStart c = true
      · exact .inr (.inr (.inl ⟨c, ds, rfl, hw, scan_of_isWordStart hw ds⟩))
      by_cases hn : isNumberStart c = true
      · exact .inr (.inr (.inr (.inl ⟨c, ds, rfl, hn, scan_of_isNumberStart hn ds⟩)))
      · refine .inr (.inr (.inr (.inr ⟨c, ds, rfl, ?_⟩)))
        rw [scan, hs]
        simp only [if_neg hq, if_neg hw]
        exact if_neg hn
  · exact .inl ⟨t, text, rest, rfl, scan_of_symbol hs⟩

/-- A token that is read is a symbol, a string, a word or a number. -/
theorem scan_cases (h : (scan cs).outcome = .ok t) (ht : t ≠ .endOfInput) :
    splitSymbol cs = some (t, (scan cs).text, (scan cs).rest) ∨
    (∃ ds body, cs = '\'' :: ds ∧ Quoted.split ds = some body ∧
      t = .literal (.string (String.ofList body.value))) ∨
    (∃ c ds, cs = c :: ds ∧ isWordStart c = true ∧
      (∀ d ∈ (splitPath cs).2.head?, isNumberChar d = false) ∧
      t = .ofWord (String.ofList (splitPath cs).1)) ∨
    ∃ c ds v, cs = c :: ds ∧ isNumberStart c = true ∧
      Literal.ofNumber? (splitNumber cs).1 = some v ∧ t = .literal v := by
  rcases scan_front cs with ⟨u, text, rest, hs, heq⟩ | ⟨-, heq⟩ | ⟨ds, rfl, heq⟩ |
    ⟨c, ds, rfl, hw, heq⟩ | ⟨c, ds, rfl, hn, heq⟩ | ⟨c, ds, -, heq⟩ <;> rw [heq] at h
  · cases h
    rw [heq]
    exact .inl hs
  · cases h
    exact absurd rfl ht
  · rw [scanString] at h
    split at h
    · rename_i body hb
      cases h
      exact .inr (.inl ⟨ds, body, rfl, hb, rfl⟩)
    · cases h
  · simp only [scanWord] at h
    split at h
    · cases h
    · rename_i hdot
      cases h
      refine .inr (.inr (.inl ⟨c, ds, rfl, hw, fun d hd => ?_, rfl⟩))
      have hword := not_isWordChar_head_splitPath (c :: ds) d hd
      rcases hr : (splitPath (c :: ds)).2 with _ | ⟨e, es⟩
      · simp [hr] at hd
      · simp only [hr, List.head?_cons, Option.mem_some_iff] at hd
        subst hd
        have he : e ≠ '.' := fun he => hdot es (he ▸ hr)
        simp [isNumberChar, hword, he]
  · simp only [scanNumber] at h
    split at h
    · rename_i v hv
      cases h
      exact .inr (.inr (.inr ⟨c, ds, v, rfl, hn, hv, rfl⟩))
    · cases h
  · cases h

end Front

section Again

variable {c : Char} {cs text rest word r : List Char} {t : Token} {v : Literal}

theorem takeWhile_append_of_stop {p : Char → Bool} (hr : ∀ c ∈ r.head?, p c = false)
    (cs : List Char) :
    (cs.takeWhile p ++ r).takeWhile p = cs.takeWhile p ∧
      (cs.takeWhile p ++ r).dropWhile p = r := by
  have hcs : ∀ c ∈ cs.takeWhile p, p c = true := fun c hc => List.mem_takeWhile_imp hc
  rw [List.takeWhile_append_of_pos hcs, List.dropWhile_append_of_pos hcs]
  cases r with
  | nil => simp
  | cons c r =>
    have hc := hr c rfl
    simp [hc]

theorem splitPath_append_of_stop (hr : ∀ c ∈ r.head?, isNumberChar c = false) :
    ∀ cs : List Char, splitPath ((splitPath cs).1 ++ r) = ((splitPath cs).1, r)
  | [] => by
    cases r with
    | nil => rfl
    | cons c r =>
      have hc := hr c rfl
      simp only [isNumberChar, Bool.or_eq_false_iff, decide_eq_false_iff_not] at hc
      simp [splitPath, hc]
  | c :: cs => by
    have ih := splitPath_append_of_stop hr cs
    -- a segment that starts behind a point is part of the text
    have hseg : startsSegment cs = true → startsSegment ((splitPath cs).1 ++ r) = true := by
      intro h
      cases cs with
      | nil => cases h
      | cons d ds =>
        rw [splitPath, if_pos (by simp [isWordChar_of_isWordStart h])]
        exact h
    by_cases hc : (isWordChar c || (c = '.' && startsSegment cs)) = true
    · have hc' : (isWordChar c || (c = '.' && startsSegment ((splitPath cs).1 ++ r))) = true := by
        simp only [Bool.or_eq_true, Bool.and_eq_true] at hc ⊢
        exact hc.imp_right fun h => ⟨h.1, hseg h.2⟩
      have hsplit : splitPath (c :: cs) = (c :: (splitPath cs).1, (splitPath cs).2) := by
        rw [splitPath, if_pos hc]
      rw [hsplit, List.cons_append, splitPath, if_pos hc', ih]
    · have hsplit : splitPath (c :: cs) = ([], c :: cs) := by
        rw [splitPath, if_neg hc]
      rw [hsplit]
      exact splitPath_append_of_stop hr []

theorem splitNumber_cons (hc : isNumberStart c = true) (cs : List Char) :
    splitNumber (c :: cs) = (c :: cs.takeWhile isNumberChar, cs.dropWhile isNumberChar) := by
  unfold splitNumber
  split
  · rename_i heq
    cases heq
    rfl
  · rename_i hm
    have hn : isNumberChar c = true := by
      simp only [isNumberStart, Bool.or_eq_true, decide_eq_true_eq] at hc
      rcases hc with (hc | rfl) | rfl
      · exact isNumberChar_of_isDigit hc
      · exact absurd rfl (hm cs)
      · decide
    simp [hn]

namespace Quoted

theorem split_cons (hq : c ≠ '\'') (hb : c ≠ '\\') (cs : List Char) :
    split (c :: cs) = (split cs).map fun b => ⟨c :: b.value, c :: b.text, b.rest⟩ :=
  split.eq_4 c cs hq fun _ _ h _ => hb h

/-- A backslash with nothing to pair with would leave the string open. -/
theorem ne_backslash_of_split {body : Body} (hpair : ∀ d ds, c = '\\' → cs = d :: ds → False)
    (h : split cs = some body) : c ≠ '\\' := by
  rintro rfl
  cases cs with
  | nil => cases h
  | cons d ds => exact hpair d ds rfl rfl

theorem split_append_of_split {body : Body} (h : split cs = some body) (r : List Char) :
    split (body.text ++ r) = some ⟨body.value, body.text, r⟩ := by
  fun_induction split cs generalizing body with
  | case1 => cases h
  | case2 cs => cases h; rfl
  | case3 c cs ih =>
    obtain ⟨b, hb, rfl⟩ := Option.map_eq_some_iff.1 h
    simp [split, ih hb]
  | case4 c cs hq hbs ih =>
    obtain ⟨b, hb, rfl⟩ := Option.map_eq_some_iff.1 h
    rw [List.cons_append, split_cons hq (ne_backslash_of_split hbs hb), ih hb]
    rfl

end Quoted

theorem splitSymbol_append_of_stop (h : splitSymbol cs = some (t, text, rest))
    (hr : ∀ c ∈ r.head?, t.gluesTo c = false) : splitSymbol (text ++ r) = some (t, text, r) := by
  have heq : t = .comparison .less ∨ t = .comparison .greater → ∀ r', r ≠ '=' :: r' := by
    rintro ht r' rfl
    have hc := hr '=' rfl
    rcases ht with rfl | rfl <;> simp [Token.gluesTo] at hc
  unfold splitSymbol at h
  split at h
  all_goals cases h
  case h_7 | h_9 =>
    simp only [List.cons_append, List.nil_append]
    unfold splitSymbol
    split <;> simp_all
  all_goals rfl

theorem not_glued_symbol (h : splitSymbol cs = some (t, text, rest)) :
    ∀ c ∈ rest.head?, t.gluesTo c = false := by
  unfold splitSymbol at h
  split at h
  all_goals cases h
  case h_7 hne | h_9 hne =>
    intro c hc
    have he : c ≠ '=' := by
      intro heq
      subst heq
      obtain ⟨ds, rfl⟩ := List.head?_eq_some_iff.1 hc
      exact hne ds rfl
    simpa [Token.gluesTo] using he
  all_goals exact fun _ _ => rfl

theorem Token.ofWord_cases {p : Token → Prop} (word : String)
    (hr : ∀ t ∈ reserved.map Prod.snd, p t)
    (hi : ofReserved? word = none → p (.identifier word)) : p (ofWord word) := by
  unfold ofWord
  rcases h : ofReserved? word with _ | t
  · exact hi h
  · obtain ⟨front, back, hl, -⟩ := List.lookup_eq_some_iff.1 h
    exact hr t (by rw [hl]; simp)

theorem Token.gluesTo_ofWord (word : String) (c : Char) :
    (ofWord word).gluesTo c = isNumberChar c :=
  ofWord_cases (p := fun t => t.gluesTo c = isNumberChar c) word (by simp [reserved, gluesTo])
    fun _ => rfl

theorem Literal.ofNumber?_eq_some (h : ofNumber? word = some v) :
    (∃ n, isInt64 n = true ∧ v = .int n) ∨ ∃ x, v = .float (.finite x) := by
  unfold ofNumber? at h
  simp only at h
  -- with a sign and without one
  split at h
  all_goals
    split at h
    · cases h
    split at h
    · rw [Option.ite_none_right_eq_some] at h
      exact .inl ⟨_, h.1, (Option.some.inj h.2).symm⟩
    · split at h
      · obtain ⟨x, -, rfl⟩ := Option.map_eq_some_iff.1 h
        exact .inr ⟨x, rfl⟩
      · cases h
    · cases h

theorem Token.gluesTo_ofNumber (h : Literal.ofNumber? word = some v) (c : Char) :
    (literal v).gluesTo c = isNumberChar c := by
  rcases Literal.ofNumber?_eq_some h with ⟨n, -, rfl⟩ | ⟨x, rfl⟩ <;> rfl

theorem scanWord_of_split (h : splitPath cs = (word, r))
    (hr : ∀ c ∈ r.head?, isNumberChar c = false) :
    scanWord cs = ⟨.ok (.ofWord (String.ofList word)), word, r⟩ := by
  have hdot : ∀ ds, r ≠ '.' :: ds := by
    rintro ds rfl
    exact absurd (hr '.' rfl) (by decide)
  simp only [scanWord, h]

theorem scanNumber_of_split (h : splitNumber cs = (word, r))
    (hv : Literal.ofNumber? word = some v) :
    scanNumber cs = ⟨.ok (.literal v), word, r⟩ := by
  simp only [scanNumber, h, hv]

/-- No character behind a token that has been read would have been read along with it. -/
theorem not_glued_scan (h : scan cs = ⟨.ok t, text, rest⟩) (ht : t ≠ .endOfInput) :
    ∀ c ∈ rest.head?, t.gluesTo c = false := by
  intro d hd
  obtain rfl : (scan cs).rest = rest := congrArg Scan.rest h
  rcases scan_cases (congrArg Scan.outcome h) ht with hs | ⟨ds, body, rfl, -, rfl⟩ |
    ⟨c, ds, rfl, hw, hr, hword⟩ | ⟨c, ds, v, rfl, hn, hv, rfl⟩
  · exact not_glued_symbol hs d hd
  · rfl
  · rw [scan_of_isWordStart hw] at hd
    rw [hword, Token.gluesTo_ofWord]
    exact hr d hd
  · rw [scan_of_isNumberStart hn, scanNumber, splitNumber_cons hn] at hd
    have hstop := List.head?_dropWhile_not isNumberChar ds
    rw [Option.mem_def.1 hd] at hstop
    rw [Token.gluesTo_ofNumber hv]
    exact hstop

/-- Behind the text of a token that has been read, anything may stand that would not be read along
with it. -/
theorem scan_append (h : scan cs = ⟨.ok t, text, rest⟩) (ht : t ≠ .endOfInput)
    (hr : ∀ c ∈ r.head?, t.gluesTo c = false) : scan (text ++ r) = ⟨.ok t, text, r⟩ := by
  obtain rfl : (scan cs).text = text := congrArg Scan.text h
  rcases scan_cases (congrArg Scan.outcome h) ht with hs | ⟨ds, body, rfl, hb, rfl⟩ |
    ⟨c, ds, rfl, hw, -, heq⟩ | ⟨c, ds, v, rfl, hn, hv, rfl⟩
  · exact scan_of_symbol (splitSymbol_append_of_stop hs hr)
  · have htext : (scan ('\'' :: ds)).text = '\'' :: body.text := by
      rw [scan_of_quote, scanString, hb]
    rw [htext, List.cons_append, scan_of_quote, scanString, Quoted.split_append_of_split hb]
  · have hstop : ∀ d ∈ r.head?, isNumberChar d = false := by
      intro d hd
      rw [← hr d hd, heq, Token.gluesTo_ofWord]
    have hsplit := splitPath_append_of_stop hstop (c :: ds)
    have hword : (splitPath (c :: ds)).1 = c :: (splitPath ds).1 := by
      rw [splitPath, if_pos (by simp [isWordChar_of_isWordStart hw])]
    rw [scan_of_isWordStart hw, scanWord]
    simp only
    rw [hword, List.cons_append] at hsplit ⊢
    rw [scan_of_isWordStart hw, scanWord_of_split hsplit hstop, heq, hword]
  · have hstop : ∀ d ∈ r.head?, isNumberChar d = false := by
      intro d hd
      rw [← hr d hd, Token.gluesTo_ofNumber hv]
    obtain ⟨htake, hdrop⟩ := takeWhile_append_of_stop hstop ds
    have hsplit : splitNumber (c :: (ds.takeWhile isNumberChar ++ r)) =
        (c :: ds.takeWhile isNumberChar, r) := by
      rw [splitNumber_cons hn, htake, hdrop]
    rw [splitNumber_cons hn] at hv
    rw [scan_of_isNumberStart hn, scanNumber, splitNumber_cons hn]
    simp only
    rw [List.cons_append, scan_of_isNumberStart hn, scanNumber_of_split hsplit hv]

theorem not_isBlank_of_scan (h : (scan (c :: cs)).outcome = .ok t) (ht : t ≠ .endOfInput) :
    isBlank c = false := by
  by_contra hb
  rw [Bool.not_eq_false] at hb
  have hnum := not_isNumberChar_of_isBlank hb
  rcases scan_cases h ht with hs | ⟨ds, body, heq, -, -⟩ | ⟨d, ds, heq, hw, -, -⟩ |
    ⟨d, ds, v, heq, hn, -, -⟩
  · rw [splitSymbol_eq_none (not_isSymbolStart hb)] at hs
    cases hs
  · cases heq
    exact absurd hb (by decide)
  · cases heq
    simp [isNumberChar_of_isWordStart hw] at hnum
  · cases heq
    simp only [isNumberStart, Bool.or_eq_true, decide_eq_true_eq] at hn
    rcases hn with (hn | rfl) | rfl
    · simp [isNumberChar_of_isDigit hn] at hnum
    · exact absurd hb (by decide)
    · exact absurd hb (by decide)

theorem eq_nil_of_scan (h : (scan cs).outcome = .ok .endOfInput) : cs = [] := by
  have hword : ∀ word, Token.ofWord word ≠ .endOfInput := fun word =>
    Token.ofWord_cases (p := (· ≠ .endOfInput)) word (by simp [Token.reserved])
      fun _ => nofun
  rcases scan_front cs with ⟨u, text, rest, hs, heq⟩ | ⟨hnil, -⟩ | ⟨ds, -, heq⟩ |
    ⟨c, ds, -, -, heq⟩ | ⟨c, ds, -, -, heq⟩ | ⟨c, ds, -, heq⟩
  · rw [heq] at h
    cases h
    unfold splitSymbol at hs
    split at hs <;> cases hs
  · exact hnil
  · rw [heq, scanString] at h
    split at h <;> cases h
  · rw [heq] at h
    simp only [scanWord] at h
    split at h
    · cases h
    · exact absurd (Except.ok.inj h) (hword _)
  · rw [heq] at h
    simp only [scanNumber] at h
    split at h <;> cases h
  · rw [heq] at h
    cases h

end Again

end FilterQuery
