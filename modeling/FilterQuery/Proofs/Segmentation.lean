import FilterQuery.Proofs.Lexicon
import FilterQuery.Proofs.Slices

/-!
# How a text splits into words

A segmentation cuts a text into words, with blanks or nothing in front of each and behind the last
one. It is lexical if every word is one of the language and no word stands right in front of one
that it would run into. A text has at most one such segmentation (`Segmentation.IsLexical.eq`), and
it has one exactly if it is read up to its end, each word as its token
(`tokenize_iff_segmentation`).
-/

namespace FilterQuery

/-- A text in pieces: words, each with the blanks in front of it, and the blanks at the end. -/
structure Segmentation where
  words : List (List Char × List Char)
  back : List Char

/-- Whether the word `x` would be read on into the word `y`, if `y` stood right behind it. -/
def RunsInto (x y : List Char) : Prop :=
  ((∃ t, IsWord x t) ∨ ∃ v, IsNumber x v) ∧ (∃ c ∈ y.head?, isWordChar c = true) ∨
    (x = ['<'] ∨ x = ['>']) ∧ y.head? = some '='

namespace Segmentation

def chars (s : Segmentation) : List Char :=
  s.words.flatMap (fun w => w.1 ++ w.2) ++ s.back

structure IsLexical (s : Segmentation) : Prop where
  blank : ∀ w ∈ s.words, ∀ c ∈ w.1, isBlank c = true
  lexical : ∀ w ∈ s.words, ∃ t, Lexical w.2 t
  apart : s.words.IsChain fun v w => w.1 = [] → ¬ RunsInto v.2 w.2
  back : ∀ c ∈ s.back, isBlank c = true

end Segmentation

section First

variable {x y : List Char} {t : Token}

theorem Lexical.ne_endOfInput (h : Lexical x t) : t ≠ .endOfInput := by
  cases h with
  | word h =>
    cases h with
    | reserved _ _ h _ =>
      have hall : ∀ entry ∈ Token.reserved, entry.2 ≠ .endOfInput := by decide
      exact hall _ h
    | identifier => nofun
  | number | string => nofun
  | symbol h =>
    have hall : ∀ entry ∈ symbols, entry.2 ≠ .endOfInput := by decide
    exact hall _ h

theorem Lexical.exists_cons (h : Lexical x t) :
    ∃ c cs, x = c :: cs ∧ isBlank c = false ∧ c ≠ '.' := by
  have hs := scan_of_lexical h
  cases x with
  | nil =>
    cases hs
    exact absurd rfl h.ne_endOfInput
  | cons c cs =>
    refine ⟨c, cs, rfl, not_isBlank_of_scan (congrArg Scan.outcome hs) h.ne_endOfInput, ?_⟩
    -- a point starts a number that has no digits
    rintro rfl
    rw [scan_of_isNumberStart rfl, scanNumber, splitNumber_cons rfl] at hs
    cases hs

theorem gluesTo_of_isWord (h : IsWord x t) (c : Char) : t.gluesTo c = isNumberChar c := by
  rw [← ofWord_of_isWord h, Token.gluesTo_ofWord]

theorem gluesTo_of_isNumber {v : Literal} (h : IsNumber x v) (c : Char) :
    (Token.literal v).gluesTo c = isNumberChar c := by
  cases h <;> rfl

theorem gluesTo_of_runsInto (hx : Lexical x t) (h : RunsInto x y) :
    ∃ c ∈ y.head?, t.gluesTo c = true := by
  rcases h with ⟨hword | hnumber, c, hc, hchar⟩ | ⟨hx' | hx', hy⟩
  · obtain ⟨u, hu⟩ := hword
    obtain rfl := hx.eq (.word hu)
    exact ⟨c, hc, by simp [gluesTo_of_isWord hu, isNumberChar, hchar]⟩
  · obtain ⟨v, hv⟩ := hnumber
    obtain rfl := hx.eq (.number hv)
    exact ⟨c, hc, by simp [gluesTo_of_isNumber hv, isNumberChar, hchar]⟩
  · subst hx'
    obtain rfl : t = .comparison .less := hx.eq (.symbol (by decide))
    exact ⟨'=', hy, rfl⟩
  · subst hx'
    obtain rfl : t = .comparison .greater := hx.eq (.symbol (by decide))
    exact ⟨'=', hy, rfl⟩

/-- A word runs into another one exactly if its token is read on into the first character. -/
theorem runsInto_iff {u : Token} (hx : Lexical x t) (hy : Lexical y u) :
    RunsInto x y ↔ ∃ c ∈ y.head?, t.gluesTo c = true := by
  refine ⟨gluesTo_of_runsInto hx, fun h => ?_⟩
  obtain ⟨c, cs, rfl, -, hpoint⟩ := hy.exists_cons
  obtain ⟨d, hd, hg⟩ := h
  obtain rfl : c = d := Option.some.inj hd
  -- no word begins with a point
  have hchar : isNumberChar c = true → isWordChar c = true := by
    simp [isNumberChar, hpoint]
  cases hx with
  | word hx =>
    rw [gluesTo_of_isWord hx] at hg
    exact .inl ⟨.inl ⟨t, hx⟩, c, rfl, hchar hg⟩
  | number hx =>
    rw [gluesTo_of_isNumber hx] at hg
    exact .inl ⟨.inr ⟨_, hx⟩, c, rfl, hchar hg⟩
  | string => cases hg
  | symbol h =>
    have hall : ∀ entry ∈ symbols, entry.2.gluesTo c = true →
        (entry.1 = ['<'] ∨ entry.1 = ['>']) ∧ c = '=' := by
      simp [symbols, Token.gluesTo]
    obtain ⟨hx, rfl⟩ := hall _ h hg
    exact .inr ⟨hx, rfl⟩

end First

section Chars

variable {ws : List (List Char × List Char)} {b x back cs : List Char} {s : Segmentation}

namespace Segmentation

theorem chars_cons (b x : List Char) (ws : List (List Char × List Char)) (back : List Char) :
    chars ⟨(b, x) :: ws, back⟩ = b ++ (x ++ chars ⟨ws, back⟩) := by
  simp [chars]

theorem IsLexical.tail {w : List Char × List Char} (h : IsLexical ⟨w :: ws, back⟩) :
    IsLexical ⟨ws, back⟩ where
  blank v hv := h.blank v (List.mem_cons_of_mem w hv)
  lexical v hv := h.lexical v (List.mem_cons_of_mem w hv)
  apart := h.apart.tail
  back := h.back

/-- The first word is read as its token and not on into what stands behind it. -/
theorem IsLexical.scan_eq (h : IsLexical ⟨(b, x) :: ws, back⟩) {t : Token} (ht : Lexical x t) :
    scan (x ++ chars ⟨ws, back⟩) = ⟨.ok t, x, chars ⟨ws, back⟩⟩ := by
  have hs := scan_of_lexical ht
  have hr : ∀ c ∈ (chars ⟨ws, back⟩).head?, t.gluesTo c = false := by
    intro c hc
    cases ws with
    | nil => exact not_gluesTo_of_isBlank (h.back c (List.mem_of_mem_head? hc)) t
    | cons w ws =>
      obtain ⟨b', y⟩ := w
      rw [chars_cons] at hc
      cases b' with
      | cons d ds =>
        obtain rfl : d = c := Option.some.inj hc
        exact not_gluesTo_of_isBlank (h.blank (d :: ds, y) (by simp) d (by simp)) t
      | nil =>
        obtain ⟨u, hu⟩ := h.lexical ([], y) (by simp)
        have hapart : ¬ RunsInto x y := (List.isChain_cons_cons.1 h.apart).1 rfl
        obtain ⟨d, ds, rfl, -, -⟩ := hu.exists_cons
        rw [runsInto_iff ht hu] at hapart
        obtain rfl : d = c := Option.some.inj hc
        simpa using fun hg => hapart ⟨d, rfl, hg⟩
  exact scan_append hs ht.ne_endOfInput hr

theorem IsLexical.passes (h : s.IsLexical) (p : Position) :
    ∃ lexemes q, Cursor.Passes ⟨s.chars, p⟩ lexemes ⟨s.back, q⟩ ∧
      List.Forall₂ (fun w l => Lexical w.2 l.token) s.words lexemes := by
  obtain ⟨words, back⟩ := s
  induction words generalizing p with
  | nil => exact ⟨[], p, .nil _, .nil⟩
  | cons w ws ih =>
    obtain ⟨b, x⟩ := w
    obtain ⟨t, ht⟩ := h.lexical (b, x) List.mem_cons_self
    have hnext := Cursor.next_of_scan p (h.blank (b, x) List.mem_cons_self) (h.scan_eq ht)
      ht.ne_endOfInput
    obtain ⟨lexemes, q, hp, hall⟩ := ih (p.advance (b ++ x)) h.tail
    rw [chars_cons]
    exact ⟨_ :: lexemes, q, .cons hnext ht.ne_endOfInput hp, .cons ht hall⟩

theorem takeWhile_append_of_head {blanks : List Char} (hb : ∀ c ∈ blanks, isBlank c = true)
    (hcs : ∀ c ∈ cs.head?, isBlank c = false) : (blanks ++ cs).takeWhile isBlank = blanks := by
  have hall : blanks.takeWhile isBlank = blanks := List.takeWhile_eq_self_iff.2 hb
  have h := (takeWhile_append_of_stop hcs blanks).1
  rwa [hall] at h

/-- The blanks in front of the first word are those the text begins with. -/
theorem IsLexical.takeWhile_chars (h : IsLexical ⟨(b, x) :: ws, back⟩) :
    (chars ⟨(b, x) :: ws, back⟩).takeWhile isBlank = b := by
  obtain ⟨t, ht⟩ := h.lexical (b, x) List.mem_cons_self
  obtain ⟨c, cs, rfl, hc, -⟩ := ht.exists_cons
  rw [chars_cons]
  refine takeWhile_append_of_head (h.blank _ List.mem_cons_self) fun d hd => ?_
  obtain rfl : c = d := Option.some.inj hd
  exact hc

theorem IsLexical.chars_ne (h : IsLexical ⟨(b, x) :: ws, back⟩) (hcs : ∀ c ∈ cs, isBlank c = true) :
    chars ⟨(b, x) :: ws, back⟩ ≠ cs := by
  obtain ⟨t, ht⟩ := h.lexical (b, x) List.mem_cons_self
  obtain ⟨c, ds, rfl, hc, -⟩ := ht.exists_cons
  rintro rfl
  rw [hcs c (by simp [chars_cons])] at hc
  cases hc

/-- A text has at most one segmentation that is lexical. -/
theorem IsLexical.eq {r : Segmentation} (hs : s.IsLexical) (hr : r.IsLexical)
    (h : s.chars = r.chars) : s = r := by
  obtain ⟨words, back⟩ := s
  induction words generalizing r with
  | nil =>
    obtain ⟨_ | ⟨⟨b, x⟩, ws⟩, back'⟩ := r
    · simpa [chars] using h
    · exact absurd h.symm (hr.chars_ne hs.back)
  | cons w words ih =>
    obtain ⟨b, x⟩ := w
    obtain ⟨_ | ⟨⟨b', x'⟩, words'⟩, back'⟩ := r
    · exact absurd h (hs.chars_ne hr.back)
    obtain ⟨t, ht⟩ := hs.lexical (b, x) List.mem_cons_self
    obtain ⟨u, hu⟩ := hr.lexical (b', x') List.mem_cons_self
    obtain rfl : b = b' := by
      rw [← hs.takeWhile_chars, h, hr.takeWhile_chars]
    rw [chars_cons, chars_cons] at h
    have hscan := hs.scan_eq ht
    rw [List.append_cancel_left h, hr.scan_eq hu] at hscan
    rw [Scan.mk.injEq] at hscan
    obtain ⟨-, rfl, hrest⟩ := hscan
    cases ih hr.tail hs.tail hrest.symm
    rfl

end Segmentation

end Chars

/-- What is passed can be cut into words, one for each lexeme. -/
theorem Cursor.Passes.exists_segmentation {c d : Cursor} {lexemes : List Lexeme}
    (hp : Passes c lexemes d) (hd : ∀ x ∈ d.rest, isBlank x = true) :
    ∃ words, c.rest = Segmentation.chars ⟨words, d.rest⟩ ∧
      Segmentation.IsLexical ⟨words, d.rest⟩ := by
  induction hp with
  | nil c => exact ⟨[], by simp [Segmentation.chars], by simp, by simp, by simp, hd⟩
  | @cons c mid d lexeme lexemes h ht hp ih =>
    obtain ⟨words, hrest, hwords⟩ := ih hd
    obtain ⟨blanks, word, hc, hb, -, hs, -, -⟩ := next_eq_ok h ht
    have hx := lexical_of_scan hs ht
    refine ⟨(blanks, word) :: words, ?_, ?_, ?_, ?_, hwords.back⟩
    · rw [Segmentation.chars_cons, ← hrest, hc]
    · exact List.forall_mem_cons.2 ⟨hb, hwords.blank⟩
    · exact List.forall_mem_cons.2 ⟨⟨_, hx⟩, hwords.lexical⟩
    · cases words with
      | nil => exact List.isChain_singleton _
      | cons w ws =>
        obtain ⟨b, y⟩ := w
        refine List.isChain_cons_cons.2 ⟨?_, hwords.apart⟩
        rintro rfl hruns
        obtain ⟨e, he, hg⟩ := gluesTo_of_runsInto hx hruns
        -- the word behind begins what stands behind
        have hhead : e ∈ mid.rest.head? := by
          rw [hrest, Segmentation.chars_cons, List.nil_append]
          exact List.mem_head?_append_of_mem_head? he
        rw [not_glued_scan hs ht e hhead] at hg
        cases hg

/-- A text is read up to its end exactly if it has a segmentation that is lexical. It has no other
one then, and its tokens are those of the words, with the end of input behind them. -/
theorem tokenize_iff_segmentation (text : String) :
    ((∃ lexemes, tokenize text = .ok lexemes) ↔
      ∃ s : Segmentation, s.IsLexical ∧ s.chars = text.toList) ∧
    ∀ s : Segmentation, s.IsLexical → s.chars = text.toList →
      (∀ r : Segmentation, r.IsLexical → r.chars = text.toList → r = s) ∧
      ∃ lexemes, tokenize text = .ok lexemes ∧ ∀ ts : List Token,
        List.Forall₂ (fun w t => Lexical w.2 t) s.words ts ↔
          lexemes.map Lexeme.token = ts ++ [.endOfInput] := by
  have hread : ∀ s : Segmentation, s.IsLexical → s.chars = text.toList →
      ∃ lexemes, tokenize text = .ok lexemes ∧ ∀ ts : List Token,
        List.Forall₂ (fun w t => Lexical w.2 t) s.words ts ↔
          lexemes.map Lexeme.token = ts ++ [.endOfInput] := by
    intro s hs htext
    obtain ⟨lexemes, q, hp, hall⟩ := hs.passes .start
    rw [htext] at hp
    have hmap : List.Forall₂ (fun w t => Lexical w.2 t) s.words (lexemes.map Lexeme.token) :=
      List.forall₂_map_right_iff.2 hall
    refine ⟨_, tokenize_of_passes hp hs.back, fun ts => ?_⟩
    rw [List.map_append, List.map_singleton, List.append_cancel_right_eq]
    refine ⟨fun h => ?_, fun h => h ▸ hmap⟩
    exact List.right_unique_forall₂' (fun _ _ _ ht hu => ht.eq hu) hmap h
  refine ⟨⟨fun ⟨lexemes, h⟩ => ?_, fun ⟨s, hs, htext⟩ => ?_⟩,
    fun s hs htext => ⟨fun r hr hrtext => ?_, hread s hs htext⟩⟩
  · obtain ⟨words, d, hp, hb, -⟩ := exists_passes_of_tokenize h
    obtain ⟨ws, htext, hws⟩ := hp.exists_segmentation hb
    exact ⟨_, hws, htext.symm⟩
  · obtain ⟨lexemes, h, -⟩ := hread s hs htext
    exact ⟨lexemes, h⟩
  · exact hr.eq hs (hrtext.trans htext.symm)

/-- The pieces of `a.in<-1 'b'`. -/
def Segmentation.sample : Segmentation where
  words := [([], ['a', '.', 'i', 'n']), ([], ['<']), ([], ['-', '1']),
    ([' '], [ '\'', 'b', '\''])]
  back := []

theorem tokenize_iff_segmentation_sample :
    Segmentation.sample.IsLexical ∧ Segmentation.sample.chars = "a.in<-1 'b'".toList ∧
    (∀ r : Segmentation, r.IsLexical → r.chars = "a.in<-1 'b'".toList →
      r = Segmentation.sample) ∧
    ∃ lexemes, tokenize "a.in<-1 'b'" = .ok lexemes ∧ lexemes.map Lexeme.token =
      [.identifier "a.in", .comparison .less, .literal (.int (-1)), .literal (.string "b"),
        .endOfInput] := by
  have hpath : Lexical ['a', '.', 'i', 'n'] (.identifier "a.in") :=
    .word (.identifier (by decide) (.inl (by decide)))
  have hless : Lexical ['<'] (.comparison .less) := .symbol (by decide)
  have hint : Lexical ['-', '1'] (.literal (.int (-1))) :=
    .number (@IsNumber.whole true ['1'] (-1) (by decide) (List.forall_mem_singleton.2 rfl)
      (by decide) (by decide) (by decide))
  have hstring : Lexical [ '\'', 'b', '\''] (.literal (.string "b")) :=
    .string (.plain (by decide) (by decide) .nil)
  have hs : Segmentation.sample.IsLexical := by
    refine ⟨by simp [Segmentation.sample, isBlank, blankRuns], ?_, ?_,
      by simp [Segmentation.sample]⟩
    · simp only [Segmentation.sample, List.forall_mem_cons, List.not_mem_nil, false_implies,
        implies_true, and_true]
      exact ⟨⟨_, hpath⟩, ⟨_, hless⟩, ⟨_, hint⟩, _, hstring⟩
    · refine .cons_cons (fun _ h => ?_) (.cons_cons (fun _ h => ?_) (.cons_cons
        (fun h => by cases h) (.singleton _)))
      · obtain ⟨c, hc, hg⟩ := gluesTo_of_runsInto hpath h
        cases hc
        cases hg
      · obtain ⟨c, hc, hg⟩ := gluesTo_of_runsInto hless h
        cases hc
        cases hg
  have htext : Segmentation.sample.chars = "a.in<-1 'b'".toList := rfl
  obtain ⟨huniq, lexemes, h, htokens⟩ := (tokenize_iff_segmentation "a.in<-1 'b'").2 _ hs htext
  exact ⟨hs, htext, huniq, lexemes, h,
    (htokens _).1 (.cons hpath (.cons hless (.cons hint (.cons hstring .nil))))⟩

end FilterQuery
