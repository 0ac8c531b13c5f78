import FilterQuery.Proofs.Acceptance
import FilterQuery.Proofs.Passage
import FilterQuery.Proofs.Places
import FilterQuery.Proofs.Spelling

/-!
# Lexemes are slices of their text

A cursor stands in a text if what it has left is what the text has left behind the place of the
cursor. A step keeps it standing there, whatever the step brings (`Cursor.StandsIn.next`), so the
lexeme or the error that it brings shows the place it has in the text.
-/

namespace FilterQuery

variable {text : String} {c d : Cursor} {lexemes : List Lexeme}

def Cursor.StandsIn (c : Cursor) (text : String) : Prop :=
  ∃ front, text = front ++ String.ofList c.rest ∧ c.position = .behind front

/-- The text of the lexeme stands in `text`, at the place of the lexeme. -/
def Lexeme.StandsIn (l : Lexeme) (text : String) : Prop :=
  ∃ front rest, text = front ++ l.text ++ rest ∧ l.position = .behind front

/-- `rest` begins with what the fault reports. -/
def LexFault.ShownBy : LexFault → String → Prop
  | .invalidCharacter c, rest => rest.toList.head? = some c
  | .malformedNumber word, rest => word ≠ "" ∧ ∃ more, rest = word ++ more
  | .unterminatedString, rest => ∃ body, rest.toList = '\'' :: body ∧ Quoted.split body = none

/-- What stands in `text` at the place of the error shows the fault. -/
def LexError.StandsIn (e : LexError) (text : String) : Prop :=
  ∃ front rest, text = front ++ rest ∧ e.position = .behind front ∧ e.fault.ShownBy rest

/-- Where there is no token, a string is read to the end of the text, a number word and the
identifier in front of a point are read, and a character that fits nowhere is not. -/
theorem scan_of_error {cs : List Char} {f : LexFault} (h : (scan cs).outcome = .error f) :
    (f = .unterminatedString ∧ (scan cs).rest = [] ∧
      ∃ ds, cs = '\'' :: ds ∧ Quoted.split ds = none) ∨
    (f = .malformedNumber (String.ofList (scan cs).text) ∧ (scan cs).text ≠ []) ∨
    (f = .invalidCharacter '.' ∧ IsPath (scan cs).text ∧ ∃ ds, (scan cs).rest = '.' :: ds) ∨
    ∃ c ds, cs = c :: ds ∧ f = .invalidCharacter c ∧ (scan cs).text = [] := by
  rcases scan_front cs with ⟨t, text, rest, -, heq⟩ | ⟨-, heq⟩ | ⟨ds, rfl, heq⟩ |
    ⟨c, ds, rfl, hw, heq⟩ | ⟨c, ds, rfl, hn, heq⟩ | ⟨c, ds, rfl, heq⟩ <;> rw [heq] at h ⊢
  · cases h
  · cases h
  · rw [scanString] at h ⊢
    split at h
    · cases h
    · rename_i hb
      cases h
      exact .inl ⟨rfl, rfl, ds, rfl, hb⟩
  · simp only [scanWord] at h ⊢
    split at h
    · rename_i rest hrest
      cases h
      exact .inr (.inr (.inl ⟨rfl, isPath_splitPath hw ds, rest, hrest⟩))
    · cases h
  · simp only [scanNumber] at h ⊢
    split at h
    · cases h
    · cases h
      exact .inr (.inl ⟨rfl, splitNumber_ne_nil ds hn⟩)
  · cases h
    exact .inr (.inr (.inr ⟨c, ds, rfl, rfl, rfl⟩))

/-- A character that fits nowhere is where the reading stops, any other fault where it begins. -/
theorem scan_error_cases {cs : List Char} {f : LexFault} (h : (scan cs).outcome = .error f) :
    (∃ c, f = .invalidCharacter c ∧ (scan cs).rest.head? = some c) ∨
      (∀ c, f ≠ .invalidCharacter c) ∧ f.ShownBy (String.ofList cs) := by
  have hread := text_append_rest_scan cs
  rcases scan_of_error h with ⟨rfl, -, ds, rfl, hb⟩ | ⟨rfl, hne⟩ | ⟨rfl, -, ds, hrest⟩ |
    ⟨c, ds, rfl, rfl, htext⟩
  · exact .inr ⟨nofun, ds, by simp, hb⟩
  · refine .inr ⟨nofun, by simpa using hne, String.ofList (scan cs).rest, ?_⟩
    rw [← String.ofList_append, hread]
  · exact .inl ⟨'.', rfl, by rw [hrest]; rfl⟩
  · rw [htext, List.nil_append] at hread
    exact .inl ⟨c, rfl, by rw [hread]; rfl⟩

namespace Cursor

theorem standsIn_ofText (text : String) : (ofText text).StandsIn text :=
  ⟨"", by simp [ofText], Position.behind_empty.symm⟩

theorem StandsIn.skip (h : c.StandsIn text) : c.skip.StandsIn text := by
  obtain ⟨front, htext, hpos⟩ := h
  refine ⟨front ++ String.ofList (c.rest.takeWhile isBlank), ?_, ?_⟩
  · rw [htext, String.append_assoc, ← String.ofList_append]
    exact congrArg _ (congrArg _ List.takeWhile_append_dropWhile.symm)
  · rw [Cursor.skip, hpos, Position.advance_behind]

/-- A step keeps the cursor in the text, and what it brings has its place there. -/
theorem StandsIn.next (h : c.StandsIn text) :
    c.next.2.StandsIn text ∧ (∀ l, c.next.1 = .ok l → l.StandsIn text) ∧
      ∀ e, c.next.1 = .error e → e.StandsIn text := by
  obtain ⟨before, hsplit, hword⟩ := h.skip
  have hstop : text = before ++ String.ofList (scan c.skip.rest).text ++
      String.ofList c.next.2.rest := by
    rw [hsplit, String.append_assoc, ← String.ofList_append, ← rest_skip]
  have hafter : c.next.2.position = .behind (before ++ String.ofList (scan c.skip.rest).text) := by
    rw [next_snd, behind, hword, Position.advance_behind]
  refine ⟨⟨_, hstop, hafter⟩, fun l hl => ?_, fun e he => ?_⟩
  · rw [(outcome_of_next_ok hl).2]
    exact ⟨before, _, hstop, hword⟩
  · obtain ⟨position, f⟩ := e
    obtain ⟨hs, rfl⟩ := outcome_of_next_error he
    rcases scan_error_cases hs with ⟨x, rfl, hx⟩ | ⟨hplace, hshown⟩
    · refine ⟨_, _, hstop, hafter, ?_⟩
      rw [LexFault.ShownBy, String.toList_ofList, next_snd]
      exact hx
    · refine ⟨before, _, hsplit, ?_, hshown⟩
      cases f with
      | invalidCharacter x => exact absurd rfl (hplace x)
      | unterminatedString | malformedNumber => exact hword

/-- The cursor behind `n` steps, whatever they bring. -/
def afterSteps (c : Cursor) : Nat → Cursor
  | 0 => c
  | n + 1 => (c.afterSteps n).next.2

theorem StandsIn.afterSteps (h : c.StandsIn text) :
    ∀ n, (c.afterSteps n).StandsIn text
  | 0 => h
  | n + 1 => (h.afterSteps n).next.1

theorem Passes.standsIn (hp : Passes c lexemes d) (h : c.StandsIn text) :
    d.StandsIn text ∧ ∀ l ∈ lexemes, l.StandsIn text := by
  induction hp with
  | nil c => exact ⟨h, by simp⟩
  | cons hn ht _ ih =>
    obtain ⟨hafter, hl, -⟩ := h.next
    rw [hn] at hafter hl
    obtain ⟨hd, hall⟩ := ih hafter
    exact ⟨hd, List.forall_mem_cons.2 ⟨hl _ rfl, hall⟩⟩

theorem exists_passes_deliver (c : Cursor) :
    ∃ d, c.Passes c.deliver.lexemes d ∧ d.next.1 = c.deliver.ending := by
  fun_induction deliver c with
  | case1 c e after h => exact ⟨c, .nil c, by rw [h]⟩
  | case2 c lexeme after h ht => exact ⟨c, .nil c, by rw [h]⟩
  | case3 c lexeme after h ht _ rest ih =>
    obtain ⟨d, hp, hd⟩ := ih
    exact ⟨d, .cons h ht hp, hd⟩

end Cursor

/-- The offset right behind the text of a lexeme. -/
def Lexeme.stop (l : Lexeme) : Nat :=
  l.position.offset + l.text.utf8ByteSize

namespace Cursor

theorem span_next {after : Cursor} {lexeme : Lexeme} (h : c.next = (.ok lexeme, after))
    (ht : lexeme.token ≠ .endOfInput) : c.position.offset ≤ lexeme.position.offset ∧
      lexeme.position.offset < lexeme.stop ∧ lexeme.stop = after.position.offset := by
  obtain ⟨blanks, word, -, -, hw, -, hl, ha⟩ := next_eq_ok h ht
  have hsize : 0 < (String.ofList word).utf8ByteSize := by
    rw [Nat.pos_iff_ne_zero, ne_eq, String.utf8ByteSize_eq_zero_iff]
    simpa using hw
  rw [hl, ha]
  simp only [Lexeme.stop, Position.offset_advance, String.ofList_append, String.utf8ByteSize_append]
  omega

/-- Lexemes that are passed lie one behind the other. -/
theorem Passes.ordered (hp : Passes c lexemes d) :
    c.position.offset ≤ d.position.offset ∧
      (∀ l ∈ lexemes, l.token ≠ .endOfInput ∧ c.position.offset ≤ l.position.offset ∧
        l.position.offset < l.stop ∧ l.stop ≤ d.position.offset) ∧
      lexemes.Pairwise fun l m => l.stop ≤ m.position.offset := by
  induction hp with
  | nil c => simp
  | cons h ht _ ih =>
    obtain ⟨hle, hall, hpair⟩ := ih
    obtain ⟨hstart, hpos, hstop⟩ := span_next h ht
    refine ⟨by omega, List.forall_mem_cons.2 ⟨⟨ht, by omega, hpos, by omega⟩, fun l hl => ?_⟩,
      List.pairwise_cons.2 ⟨fun l hl => ?_, hpair⟩⟩
    · obtain ⟨htl, hl⟩ := hall l hl
      exact ⟨htl, by omega⟩
    · have := (hall l hl).2
      omega

/-- A character that is passed is blank or stands in a lexeme. -/
theorem Passes.isBlank_or_mem (hp : Passes c lexemes d) (hc : c.StandsIn text) {front rest : String}
    {x : Char} (htext : text = front ++ String.singleton x ++ rest)
    (hle : c.position.offset ≤ front.utf8ByteSize) (hlt : front.utf8ByteSize < d.position.offset) :
    isBlank x = true ∨
      ∃ l ∈ lexemes, l.position.offset ≤ front.utf8ByteSize ∧ front.utf8ByteSize < l.stop := by
  induction hp with
  | nil c => omega
  | @cons c mid d lexeme lexemes h ht hp ih =>
    have hmid := hc.next.1
    rw [h] at hmid
    by_cases hm : mid.position.offset ≤ front.utf8ByteSize
    · rcases ih hmid hm hlt with hx | ⟨l, hl, hin⟩
      · exact .inl hx
      · exact .inr ⟨l, List.mem_cons_of_mem _ hl, hin⟩
    obtain ⟨-, -, hstop⟩ := span_next h ht
    by_cases hin : lexeme.position.offset ≤ front.utf8ByteSize
    · exact .inr ⟨lexeme, List.mem_cons_self, hin, by omega⟩
    -- in front of the lexeme
    obtain ⟨blanks, word, hrest, hb, -, -, hl, -⟩ := next_eq_ok h ht
    obtain ⟨before, hsplit, hpos⟩ := hc
    rw [hl, hpos] at hin
    rw [hpos] at hle
    simp only [Position.offset_advance, Position.behind] at hin hle
    have heq : before ++ String.ofList blanks ++ String.ofList (word ++ mid.rest) =
        front ++ String.singleton x ++ rest := by
      rw [← htext, hsplit, hrest, String.append_assoc, ← String.ofList_append]
    have hmem := mem_of_offset heq hle (by omega)
    rw [String.toList_ofList] at hmem
    exact .inl (hb x hmem)

/-- What is passed are the texts of the lexemes with blanks in front of each. -/
theorem Passes.exists_gaps (hp : Passes c lexemes d) :
    ∃ gaps : List (List Char), gaps.length = lexemes.length ∧
      (∀ gap ∈ gaps, ∀ x ∈ gap, isBlank x = true) ∧
      c.rest = (gaps.zipWith (fun gap l => gap ++ l.text.toList) lexemes).flatten ++ d.rest := by
  induction hp with
  | nil c => exact ⟨[], rfl, by simp, rfl⟩
  | cons h ht _ ih =>
    obtain ⟨gaps, hlength, hb, hrest⟩ := ih
    obtain ⟨blanks, word, hc, hblanks, -, -, hl, -⟩ := next_eq_ok h ht
    refine ⟨blanks :: gaps, by simp [hlength], List.forall_mem_cons.2 ⟨hblanks, hb⟩, ?_⟩
    rw [hc, hl, hrest]
    simp

end Cursor

theorem exists_passes_of_tokenize (h : tokenize text = .ok lexemes) :
    ∃ words d, (Cursor.ofText text).Passes words d ∧
      (∀ x ∈ d.rest, isBlank x = true) ∧
      lexemes = words ++ [⟨.endOfInput, "", .behind text⟩] := by
  obtain ⟨last, hending, rfl⟩ := tokenize_eq_ok.1 h
  obtain ⟨d, hp, hd⟩ := (Cursor.ofText text).exists_passes_deliver
  rw [hending] at hd
  obtain ⟨hb, hlast⟩ := Cursor.next_eq_end (Prod.ext hd rfl) (Cursor.token_ending_deliver _ hending)
  obtain ⟨⟨front, htext, hpos⟩, -⟩ := hp.standsIn (Cursor.standsIn_ofText text)
  refine ⟨_, d, hp, hb, ?_⟩
  rw [hlast, hpos, Position.advance_behind, ← htext]

theorem tokenize_of_passes {text : String} {words : List Lexeme} {d : Cursor}
    (hp : (Cursor.ofText text).Passes words d) (hb : ∀ x ∈ d.rest, isBlank x = true) :
    tokenize text = .ok (words ++ [⟨.endOfInput, "", .behind text⟩]) := by
  obtain ⟨⟨front, htext, hpos⟩, -⟩ := hp.standsIn (Cursor.standsIn_ofText text)
  have hend : d.deliver = ⟨[], .ok ⟨.endOfInput, "", .behind text⟩⟩ := by
    rw [htext, ← Position.advance_behind, ← hpos]
    exact Cursor.deliver_of_end (Cursor.next_blanks d.position hb) rfl
  refine tokenize_eq_ok.2 ⟨⟨.endOfInput, "", .behind text⟩, ?_, ?_⟩
  · rw [Cursor.deliver_of_passes hp, hend]
  · rw [Cursor.deliver_of_passes hp, hend, List.append_nil]

theorem standsIn_of_tokenize (h : tokenize text = .ok lexemes) :
    ∀ l ∈ lexemes, l.StandsIn text := by
  obtain ⟨words, d, hp, -, rfl⟩ := exists_passes_of_tokenize h
  refine List.forall_mem_append.2 ⟨(hp.standsIn (Cursor.standsIn_ofText text)).2,
    List.forall_mem_singleton.2 ⟨text, "", ?_, rfl⟩⟩
  rw [String.append_empty, String.append_empty]

theorem pairwise_of_tokenize (h : tokenize text = .ok lexemes) :
    lexemes.Pairwise fun l m => l.stop ≤ m.position.offset := by
  obtain ⟨words, d, hp, -, rfl⟩ := exists_passes_of_tokenize h
  obtain ⟨⟨front, htext, hpos⟩, -⟩ := hp.standsIn (Cursor.standsIn_ofText text)
  obtain ⟨-, hall, hpair⟩ := hp.ordered
  have hend : d.position.offset ≤ text.utf8ByteSize := by
    rw [hpos, htext, String.utf8ByteSize_append]
    exact Nat.le_add_right _ _
  refine List.pairwise_append.2 ⟨hpair, List.pairwise_singleton _ _, fun l hl m hm => ?_⟩
  rw [List.mem_singleton.1 hm]
  exact (hall l hl).2.2.2.trans hend

/-- The text is that of the lexemes with blanks put back. -/
theorem exists_gaps_of_tokenize (h : tokenize text = .ok lexemes) :
    ∃ gaps : List (List Char), gaps.length = lexemes.length ∧
      (∀ gap ∈ gaps, ∀ x ∈ gap, isBlank x = true) ∧
      text.toList = (gaps.zipWith (fun gap l => gap ++ l.text.toList) lexemes).flatten := by
  obtain ⟨words, d, hp, hb, rfl⟩ := exists_passes_of_tokenize h
  obtain ⟨gaps, hlength, hgaps, hrest⟩ := hp.exists_gaps
  refine ⟨gaps ++ [d.rest], by simp [hlength],
    List.forall_mem_append.2 ⟨hgaps, List.forall_mem_singleton.2 hb⟩, ?_⟩
  rw [List.zipWith_append hlength]
  simpa [Cursor.ofText] using hrest

theorem standsIn_of_tokenize_error {e : LexError} (h : tokenize text = .error e) :
    e.StandsIn text := by
  obtain ⟨d, hp, hd⟩ := (Cursor.ofText text).exists_passes_deliver
  rw [tokenize_eq_error.1 h] at hd
  exact (hp.standsIn (Cursor.standsIn_ofText text)).1.next.2.2 e hd

theorem isBlank_or_mem_of_tokenize (h : tokenize text = .ok lexemes) {front rest : String}
    {x : Char} (htext : text = front ++ String.singleton x ++ rest) : isBlank x = true ∨
      ∃ l ∈ lexemes, l.position.offset ≤ front.utf8ByteSize ∧ front.utf8ByteSize < l.stop := by
  obtain ⟨words, d, hp, hb, rfl⟩ := exists_passes_of_tokenize h
  have hc := Cursor.standsIn_ofText text
  by_cases hlt : front.utf8ByteSize < d.position.offset
  · rcases hp.isBlank_or_mem hc htext (Nat.zero_le _) hlt with hx | ⟨l, hl, hin⟩
    · exact .inl hx
    · exact .inr ⟨l, List.mem_append_left _ hl, hin⟩
  -- behind the last lexeme
  obtain ⟨before, hsplit, hpos⟩ := (hp.standsIn hc).1
  have hsize := congrArg String.utf8ByteSize (htext.symm.trans hsplit)
  have hx := x.utf8Size_pos
  simp only [String.utf8ByteSize_append, String.utf8ByteSize_singleton] at hsize
  have hbefore : before.utf8ByteSize ≤ front.utf8ByteSize := by
    rw [hpos] at hlt
    exact Nat.not_lt.1 hlt
  have heq : before ++ String.ofList d.rest ++ "" = front ++ String.singleton x ++ rest := by
    rw [String.append_empty, ← hsplit, htext]
  have hmem := mem_of_offset heq hbefore (by omega)
  rw [String.toList_ofList] at hmem
  exact .inl (hb x hmem)

/-- The lexemes of a text are slices of it, one behind the other and with blanks between them, and
the last one is the end of input, right behind the text. Whatever a cursor of a text brings, errors
on the way or not, has its true place in the text, and an error has there what it reports. -/
theorem tokenize_lossless (text : String) :
    (∀ lexemes, tokenize text = .ok lexemes →
      (∀ l ∈ lexemes, l.StandsIn text) ∧
      (∃ words last, lexemes = words ++ [last] ∧
        (∀ l ∈ words, l.text ≠ "" ∧ l.token ≠ .endOfInput) ∧
        last.token = .endOfInput ∧ last.text = "" ∧ last.position.offset = text.utf8ByteSize) ∧
      (lexemes.Pairwise fun l m => l.stop ≤ m.position.offset) ∧
      (∀ front x rest, text = front ++ String.singleton x ++ rest → isBlank x = true ∨
        ∃ l ∈ lexemes, l.position.offset ≤ front.utf8ByteSize ∧ front.utf8ByteSize < l.stop) ∧
      ∃ gaps : List (List Char), gaps.length = lexemes.length ∧
        (∀ gap ∈ gaps, ∀ x ∈ gap, isBlank x = true) ∧
        text.toList = (gaps.zipWith (fun gap l => gap ++ l.text.toList) lexemes).flatten) ∧
    (∀ l ∈ (Cursor.ofText text).deliver.lexemes, l.StandsIn text) ∧
    (∀ e, tokenize text = .error e → e.StandsIn text) ∧
    ∀ n, (∀ l, ((Cursor.ofText text).afterSteps n).next.1 = .ok l → l.StandsIn text) ∧
      ∀ e, ((Cursor.ofText text).afterSteps n).next.1 = .error e → e.StandsIn text := by
  have hstart := Cursor.standsIn_ofText text
  obtain ⟨d, hp, -⟩ := (Cursor.ofText text).exists_passes_deliver
  refine ⟨fun lexemes h => ⟨standsIn_of_tokenize h, ?_, pairwise_of_tokenize h,
    fun front x rest => isBlank_or_mem_of_tokenize h, exists_gaps_of_tokenize h⟩,
    (hp.standsIn hstart).2, fun e => standsIn_of_tokenize_error,
    fun n => (hstart.afterSteps n).next.2⟩
  obtain ⟨words, d, hp, -, rfl⟩ := exists_passes_of_tokenize h
  refine ⟨words, _, rfl, fun l hl => ?_, rfl, rfl, rfl⟩
  obtain ⟨ht, -, hlt, -⟩ := hp.ordered.2.1 l hl
  refine ⟨fun hempty => ?_, ht⟩
  simp [Lexeme.stop, hempty] at hlt

theorem tokenize_lossless_samples :
    (∃ lexemes, tokenize "'é\n' <" = .ok lexemes ∧ (∀ l ∈ lexemes, l.StandsIn "'é\n' <") ∧
      lexemes.Pairwise fun l m => l.stop ≤ m.position.offset) ∧
    ∃ e, tokenize "a\n 1." = .error e ∧ e.StandsIn "a\n 1." := by
  constructor
  · have h := @tokenize_of_passes "'é\n' <" _ ⟨[], _⟩ (.cons rfl nofun (.cons rfl nofun (.nil _)))
      (by simp)
    obtain ⟨hl, -, hpair, -⟩ := (tokenize_lossless _).1 _ h
    exact ⟨_, h, hl, hpair⟩
  · have hp : (Cursor.ofText "a\n 1.").Passes [⟨.identifier "a", "a", .start⟩]
        ⟨['\n', ' ', '1', '.'], ⟨1, 1, 2⟩⟩ := .cons rfl nofun (.nil _)
    have he : tokenize "a\n 1." = .error ⟨⟨3, 2, 2⟩, .malformedNumber "1."⟩ := by
      rw [tokenize, Cursor.deliver_of_passes hp, Cursor.deliver_of_error rfl]
      rfl
    exact ⟨_, he, (tokenize_lossless _).2.2.1 _ he⟩

end FilterQuery
