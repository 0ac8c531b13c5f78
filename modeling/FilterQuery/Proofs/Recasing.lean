import FilterQuery.Proofs.Demand
import FilterQuery.Proofs.Lexicon

/-!
# Capital and small letters in reserved words

A text is recased if letters are changed from capital to small or back, and that only inside the
lexemes that are reserved words (`Recased`). No class of characters tells such letters apart, so a
reserved word stays the word that it is, everything else stays where it is, and what is delivered
is the same at the same places (`Cursor.deliver_recased`). Reading looks at nothing but tokens and
places, so it comes to the same query or to the same error (`ofText_recased`).
-/

namespace FilterQuery

section Letters

variable {c d : Char}

theorem toNat_toLower (c : Char) : c.toLower.toNat =
    if 65 ≤ c.toNat ∧ c.toNat ≤ 90 then c.toNat + 32 else c.toNat := by
  have hiff : (c.val ≥ 'A'.val ∧ c.val ≤ 'Z'.val) ↔ 65 ≤ c.toNat ∧ c.toNat ≤ 90 := by
    simp only [ge_iff_le, UInt32.le_iff_toNat_le]
    exact Iff.rfl
  unfold Char.toLower
  split
  · rename_i h
    have hlt := (hiff.1 h).2
    rw [if_pos (hiff.1 h)]
    change (c.val + 32).toNat = c.val.toNat + 32
    rw [UInt32.toNat_add]
    exact Nat.mod_eq_of_lt (by change c.toNat + 32 < 2 ^ 32; omega)
  · rename_i h
    rw [if_neg fun h' => h (hiff.2 h')]

theorem eq_or_isAlpha_of_toLower_eq (h : d.toLower = c.toLower) :
    d = c ∨ d.isAlpha = true ∧ c.isAlpha = true := by
  have hn := congrArg Char.toNat h
  rw [toNat_toLower, toNat_toLower] at hn
  rw [isAlpha_iff_toNat, isAlpha_iff_toNat]
  by_cases heq : d.toNat = c.toNat
  · exact .inl (Char.toNat_inj.1 heq)
  · split at hn <;> split at hn <;> omega

theorem isAlpha_of_toLower (h : c.toLower.isAlpha = true) : c.isAlpha = true := by
  rw [isAlpha_iff_toNat] at h ⊢
  rw [toNat_toLower] at h
  split at h <;> omega

theorem isWordStart_of_isAlpha (h : c.isAlpha = true) : isWordStart c = true := by
  simp [isWordStart, h]

theorem utf8Size_of_isAlpha (h : c.isAlpha = true) : c.utf8Size = 1 := by
  rw [isAlpha_iff_toNat] at h
  rw [Char.utf8Size_eq_one_iff, UInt32.le_iff_toNat_le]
  change c.toNat ≤ 127
  omega

/-- No token goes on with a letter of one case only. -/
theorem gluesTo_of_toLower_eq (h : d.toLower = c.toLower) (t : Token) :
    t.gluesTo d = t.gluesTo c := by
  rcases eq_or_isAlpha_of_toLower_eq h with rfl | ⟨hd, hc⟩
  · rfl
  · have hnumber : ∀ {x : Char}, x.isAlpha = true → isNumberChar x = true := fun hx =>
      isNumberChar_of_isWordStart (isWordStart_of_isAlpha hx)
    have heq : ∀ {x : Char}, x.isAlpha = true → x ≠ '=' := fun hx => ne_of_class hx (by decide)
    unfold Token.gluesTo
    split <;> simp [hnumber hd, hnumber hc, heq hd, heq hc]

theorem Position.next_of_toLower_eq (h : d.toLower = c.toLower) (p : Position) :
    p.next d = p.next c := by
  rcases eq_or_isAlpha_of_toLower_eq h with rfl | ⟨hd, hc⟩
  · rfl
  · have hd' : d ≠ '\n' := ne_of_class hd (by decide)
    have hc' : c ≠ '\n' := ne_of_class hc (by decide)
    rw [next, next, if_neg hd', if_neg hc', utf8Size_of_isAlpha hd, utf8Size_of_isAlpha hc]

end Letters

section Reserved

variable {x : List Char} {t : Token}

/-- Whether a token is a keyword, a truth value or null. -/
def Token.IsReserved (t : Token) : Prop :=
  t ∈ reserved.map Prod.snd

instance (t : Token) : Decidable t.IsReserved :=
  inferInstanceAs (Decidable (t ∈ Token.reserved.map Prod.snd))

/-- A word is reserved for its small letters alone. -/
theorem isWord_of_lower {name : String} (h : (name, t) ∈ Token.reserved)
    (hx : x.map Char.toLower = name.toList) : IsWord x t := by
  have hnames : ∀ entry ∈ Token.reserved, entry.1.toList ≠ [] ∧
      entry.1.toList.all Char.isAlpha = true := by decide
  have halpha : ∀ c ∈ x, c.isAlpha = true := fun c hc =>
    isAlpha_of_toLower (List.all_eq_true.1 (hnames _ h).2 _ (hx ▸ List.mem_map_of_mem hc))
  have hstart : startsSegment x = true := by
    cases x with
    | nil => exact absurd hx.symm (hnames _ h).1
    | cons c cs => exact isWordStart_of_isAlpha (halpha c List.mem_cons_self)
  have hsegment : IsSegment x := ⟨hstart, fun c hc =>
    isWordChar_of_isWordStart (isWordStart_of_isAlpha (halpha c hc))⟩
  exact .reserved ⟨x, [], hsegment, by simp, by simp⟩ (not_mem_point h hx) h hx

/-- The texts of a reserved word are those with its letters. -/
theorem isWord_of_isReserved {y : List Char} (h : Lexical x t) (ht : t.IsReserved)
    (hy : y.map Char.toLower = x.map Char.toLower) : IsWord y t := by
  have hall : ∀ u ∈ Token.reserved.map Prod.snd, (∀ name, u ≠ .identifier name) ∧
      (∀ s, u ≠ .literal (.string s)) ∧ (∀ n, u ≠ .literal (.int n)) ∧
      (∀ z, u ≠ .literal (.float z)) ∧ u ∉ symbols.map Prod.snd := by
    simp [Token.reserved, symbols]
  obtain ⟨hidentifier, hstring, hint, hfloat, hsymbol⟩ := hall t ht
  cases h with
  | word h =>
    cases h with
    | reserved _ _ hmem hname => exact isWord_of_lower hmem (hy.trans hname)
    | identifier => exact absurd rfl (hidentifier _)
  | number h =>
    cases h with
    | whole => exact absurd rfl (hint _)
    | point => exact absurd rfl (hfloat _)
  | string => exact absurd rfl (hstring _)
  | symbol hmem => exact absurd (List.mem_map_of_mem (f := Prod.snd) hmem) hsymbol

end Reserved

/-- Whether a lexeme that is a reserved word covers the place. -/
def Covers (lexemes : List Lexeme) (p : Position) : Prop :=
  ∃ l ∈ lexemes, l.token.IsReserved ∧ l.position.offset ≤ p.offset ∧ p.offset < l.stop

/-- Two texts that start at a place and have the same characters, letters of another case inside
reserved words apart. -/
inductive Recased (lexemes : List Lexeme) : Position → List Char → List Char → Prop
  | nil (p : Position) : Recased lexemes p [] []
  | same {p : Position} (c : Char) {cs ds : List Char} (h : Recased lexemes (p.next c) cs ds) :
    Recased lexemes p (c :: cs) (c :: ds)
  | recased {p : Position} {c d : Char} {cs ds : List Char} (hp : Covers lexemes p)
    (hd : d.toLower = c.toLower) (h : Recased lexemes (p.next c) cs ds) :
    Recased lexemes p (c :: cs) (d :: ds)

namespace Recased

variable {lexemes : List Lexeme} {p : Position} {cs ds : List Char}

theorem map_toLower (h : Recased lexemes p cs ds) :
    ds.map Char.toLower = cs.map Char.toLower := by
  induction h with
  | nil => rfl
  | same c _ ih => rw [List.map_cons, List.map_cons, ih]
  | recased _ hd _ ih => rw [List.map_cons, List.map_cons, ih, hd]

/-- The place behind does not tell the cases apart. -/
theorem advance_eq (h : Recased lexemes p cs ds) : p.advance ds = p.advance cs := by
  induction h with
  | nil => rfl
  | same c _ ih => exact ih
  | @recased p c d cs ds _ hd _ ih =>
    have hnext : p.next d = p.next c := Position.next_of_toLower_eq hd p
    change (p.next d).advance ds = (p.next c).advance cs
    rw [hnext, ih]

theorem split {us : List Char} : ∀ {ts ds : List Char} {p : Position},
    Recased lexemes p (ts ++ us) ds → ∃ ts' us', ds = ts' ++ us' ∧ Recased lexemes p ts ts' ∧
      Recased lexemes (p.advance ts) us us'
  | [], ds, p, h => ⟨[], ds, rfl, .nil p, h⟩
  | t :: ts, _, p, .same _ h => by
    obtain ⟨ts', us', rfl, hts, hus⟩ := split h
    exact ⟨t :: ts', us', rfl, .same t hts, hus⟩
  | t :: ts, _, p, .recased (d := d) hp hd h => by
    obtain ⟨ts', us', rfl, hts, hus⟩ := split h
    exact ⟨d :: ts', us', rfl, .recased hp hd hts, hus⟩

/-- What no reserved word covers is the same. -/
theorem eq_of_not_covered (h : Recased lexemes p cs ds)
    (hc : ∀ q : Position, p.offset ≤ q.offset → q.offset < (p.advance cs).offset →
      ¬ Covers lexemes q) : ds = cs := by
  have hstep : ∀ (q : Position) (c : Char) (xs : List Char),
      q.offset < (q.next c).offset ∧ (q.next c).offset ≤ (q.advance (c :: xs)).offset := by
    intro q c xs
    have hone := q.offset_advance [c]
    have hall := (q.next c).offset_advance xs
    have hsize := c.utf8Size_pos
    change (q.next c).offset = _ at hone
    change (q.advance (c :: xs)).offset = _ at hall
    rw [← String.singleton_eq_ofList, String.utf8ByteSize_singleton] at hone
    omega
  induction h with
  | nil => rfl
  | @same p c cs ds _ ih =>
    rw [ih fun q hle hlt => hc q (by have := hstep p c cs; omega) hlt]
  | @recased p c d cs ds hp _ _ _ =>
    have hlt := hstep p c cs
    exact absurd hp (hc p (Nat.le_refl _) (by omega))

theorem eq_of_nil (h : Recased [] p cs ds) : ds = cs :=
  h.eq_of_not_covered fun _ _ _ ⟨_, hl, _⟩ => by cases hl

/-- A lexeme that has ended in front covers nothing. -/
theorem of_cons {l : Lexeme} (h : Recased (l :: lexemes) p cs ds)
    (hl : l.stop ≤ p.offset) : Recased lexemes p cs ds := by
  have hnext : ∀ (q : Position) (c : Char), q.offset ≤ (q.next c).offset := fun q c => by
    have hone := q.offset_advance [c]
    change (q.next c).offset = _ at hone
    omega
  induction h with
  | nil => exact .nil _
  | @same p c cs ds _ ih => exact .same c (ih (hl.trans (hnext p c)))
  | @recased p c d cs ds hp hd _ ih =>
    obtain ⟨m, hm, hcover⟩ := hp
    rcases List.mem_cons.1 hm with rfl | hm
    · omega
    · exact .recased ⟨m, hm, hcover⟩ hd (ih (hl.trans (hnext p c)))

end Recased

namespace Cursor

theorem le_position_deliver (c : Cursor) :
    ∀ l ∈ c.deliver.lexemes, c.position.offset ≤ l.position.offset := by
  obtain ⟨d, hp, -⟩ := c.exists_passes_deliver
  exact fun l hl => (hp.ordered.2.1 l hl).2.1

/-- A lexeme is read again from its recased text, in front of anything that begins alike. -/
theorem scan_recased {lexemes : List Lexeme} {p : Position} {word word' rest rest' : List Char}
    {t : Token} (hs : scan (word ++ rest) = ⟨.ok t, word, rest⟩) (ht : t ≠ .endOfInput)
    (hword : Recased lexemes p word word') (hsame : ¬ t.IsReserved → word' = word)
    (hrest : rest'.map Char.toLower = rest.map Char.toLower) :
    scan (word' ++ rest') = ⟨.ok t, word', rest'⟩ := by
  have hglue : ∀ d ∈ rest'.head?, t.gluesTo d = false := by
    intro d hd
    obtain ⟨ds, rfl⟩ := List.head?_eq_some_iff.1 hd
    obtain ⟨c, cs, rfl, hc, -⟩ := List.map_eq_cons_iff.1 hrest.symm
    rw [gluesTo_of_toLower_eq hc.symm]
    exact not_glued_scan hs ht c rfl
  by_cases hr : t.IsReserved
  · have hw := isWord_of_isReserved (lexical_of_scan hs ht) hr hword.map_toLower
    exact scan_append (scan_of_isWord hw) ht hglue
  · rw [hsame hr]
    exact scan_append hs ht hglue

/-- From a recased text come the same tokens at the same places, and the same end or error. -/
theorem deliver_recased (c : Cursor) : ∀ {cs : List Char},
    Recased c.deliver.lexemes c.position c.rest cs →
      (deliver ⟨cs, c.position⟩).lexemes.map (fun l => (l.token, l.position)) =
          c.deliver.lexemes.map (fun l => (l.token, l.position)) ∧
        (deliver ⟨cs, c.position⟩).ending = c.deliver.ending := by
  fun_induction deliver c with
  | case1 c e after hn =>
    intro cs h
    rw [h.eq_of_nil, deliver_of_error hn]
    exact ⟨rfl, rfl⟩
  | case2 c lexeme after hn ht =>
    intro cs h
    rw [h.eq_of_nil, deliver_of_end hn ht]
    exact ⟨rfl, rfl⟩
  | case3 c lexeme after hn ht _ rest =>
    rename_i ih
    intro cs h
    obtain ⟨blanks, word, hrest, hb, -, hs, hl, hafter⟩ := next_eq_ok hn ht
    obtain ⟨-, -, hstop⟩ := span_next hn ht
    have hplace : lexeme.position = c.position.advance blanks := by rw [hl]
    have hbehind := after.le_position_deliver
    rw [hrest] at h
    obtain ⟨blanks', cs', rfl, hblanks, hcs⟩ := h.split
    obtain ⟨word', rest', rfl, hword, hrest'⟩ := hcs.split
    rw [← Position.advance_append, ← hafter] at hrest'
    -- no lexeme starts in front of the first one, and none behind it in front of where it stops
    obtain rfl : blanks' = blanks := hblanks.eq_of_not_covered fun q _ hlt hcover => by
      obtain ⟨l, hm, _, hle, _⟩ := hcover
      rw [← hplace] at hlt
      rcases List.mem_cons.1 hm with rfl | hm
      · omega
      · have := hbehind l hm
        have := (span_next hn ht).2.1
        omega
    have hsame : ¬ lexeme.token.IsReserved → word' = word := fun hr =>
      hword.eq_of_not_covered fun q _ hlt hcover => by
        obtain ⟨l, hm, hres, hle, _⟩ := hcover
        rw [← Position.advance_append, ← hafter] at hlt
        rcases List.mem_cons.1 hm with rfl | hm
        · exact hr hres
        · have := hbehind l hm
          omega
    have hscan := scan_recased hs ht hword hsame hrest'.map_toLower
    have hnext := next_of_scan c.position hb hscan ht
    rw [Position.advance_append, hword.advance_eq, ← Position.advance_append, ← hafter] at hnext
    obtain ⟨hlexemes, hending⟩ := ih (hrest'.of_cons hstop.le)
    rw [deliver_of_ok hnext ht]
    exact ⟨by simp only [List.map_cons, hlexemes, ← hplace]; rfl, hending⟩

end Cursor

namespace Stage

/-- Reading looks at the tokens and the places of lexemes and not at their texts. -/
theorem runAll_of_places {lexemes lexemes' : List Lexeme}
    (h : lexemes'.map (fun l => (l.token, l.position)) =
      lexemes.map fun l => (l.token, l.position)) (ending : Except LexError Lexeme)
    (stage : Stage) : stage.runAll ⟨lexemes', ending⟩ = stage.runAll ⟨lexemes, ending⟩ := by
  induction lexemes generalizing lexemes' stage with
  | nil => rw [List.map_eq_nil_iff.1 h]
  | cons l lexemes ih =>
    obtain ⟨l', rest', rfl, hl, hrest⟩ := List.map_eq_cons_iff.1 h
    obtain ⟨htoken, hplace⟩ := Prod.mk.inj hl
    rw [runAll_cons, runAll_cons, take, take, htoken, hplace]
    rcases stage.step l.token with expected | next
    · rfl
    · exact ih hrest next

end Stage

/-- If letters inside reserved words of a text are changed to the other case, then the same tokens
are delivered at the same places, and the same end or error behind them, and the text is read as the
same query or refused with the same error. -/
theorem ofText_recased {text text' : String}
    (h : Recased (Cursor.ofText text).deliver.lexemes .start text.toList text'.toList) :
    (Cursor.ofText text').deliver.lexemes.map (fun l => (l.token, l.position)) =
        (Cursor.ofText text).deliver.lexemes.map (fun l => (l.token, l.position)) ∧
      (Cursor.ofText text').deliver.ending = (Cursor.ofText text).deliver.ending ∧
      Query.ofText text' = Query.ofText text := by
  have hcursor : Cursor.ofText text' = ⟨text'.toList, (Cursor.ofText text).position⟩ := rfl
  obtain ⟨hlexemes, hending⟩ := (Cursor.ofText text).deliver_recased h
  rw [← hcursor] at hlexemes hending
  refine ⟨hlexemes, hending, ?_⟩
  have hlength := congrArg List.length h.map_toLower
  rw [List.length_map, List.length_map] at hlength
  by_cases htext : text = ""
  · subst htext
    rw [String.toList_eq_nil_iff.1 (List.length_eq_zero_iff.1 hlength)]
  · have htext' : text' ≠ "" := by
      rintro rfl
      exact htext (String.toList_eq_nil_iff.1 (List.length_eq_zero_iff.1 hlength.symm))
    have hdeliver : (Cursor.ofText text').deliver =
        ⟨(Cursor.ofText text').deliver.lexemes, (Cursor.ofText text).deliver.ending⟩ := by
      rw [← hending]
    rw [ofText_eq_runAll htext, ofText_eq_runAll htext', hdeliver, Stage.runAll_of_places hlexemes]

theorem ofText_recased_before_error :
    Recased (Cursor.ofText "a=TRUE or #").deliver.lexemes .start "a=TRUE or #".toList
      "a=true oR #".toList ∧
    (Cursor.ofText "a=true oR #").deliver.ending = .error ⟨⟨10, 1, 11⟩, .invalidCharacter '#'⟩ ∧
    Query.ofText "a=true oR #" = Query.ofText "a=TRUE or #" := by
  have hp : (Cursor.ofText "a=TRUE or #").Passes
      [⟨.identifier "a", "a", .start⟩, ⟨.comparison .equal, "=", ⟨1, 1, 2⟩⟩,
        ⟨.literal (.bool true), "TRUE", ⟨2, 1, 3⟩⟩, ⟨.keyword .or, "or", ⟨7, 1, 8⟩⟩]
      ⟨[' ', '#'], ⟨9, 1, 10⟩⟩ :=
    .cons rfl nofun (.cons rfl nofun (.cons rfl nofun (.cons rfl nofun (.nil _))))
  have hd : (Cursor.ofText "a=TRUE or #").deliver =
      ⟨[⟨.identifier "a", "a", .start⟩, ⟨.comparison .equal, "=", ⟨1, 1, 2⟩⟩,
        ⟨.literal (.bool true), "TRUE", ⟨2, 1, 3⟩⟩, ⟨.keyword .or, "or", ⟨7, 1, 8⟩⟩],
        .error ⟨⟨10, 1, 11⟩, .invalidCharacter '#'⟩⟩ := by
    rw [Cursor.deliver_of_passes hp, Cursor.deliver_of_error rfl]
    rfl
  have hcovers : ∀ n, 2 ≤ n ∧ n < 6 ∨ n = 8 →
      Covers (Cursor.ofText "a=TRUE or #").deliver.lexemes ⟨n, 1, n + 1⟩ := by
    rw [hd]
    rintro n (⟨hl, hu⟩ | rfl)
    · exact ⟨⟨.literal (.bool true), "TRUE", ⟨2, 1, 3⟩⟩, by simp, by decide, hl, hu⟩
    · exact ⟨⟨.keyword .or, "or", ⟨7, 1, 8⟩⟩, by simp, by decide, by decide, by decide⟩
  have h : Recased (Cursor.ofText "a=TRUE or #").deliver.lexemes .start "a=TRUE or #".toList
      "a=true oR #".toList :=
    .same 'a' <| .same '=' <| .recased (hcovers 2 (by decide)) rfl <|
      .recased (hcovers 3 (by decide)) rfl <| .recased (hcovers 4 (by decide)) rfl <|
      .recased (hcovers 5 (by decide)) rfl <| .same ' ' <| .same 'o' <|
      .recased (hcovers 8 (by decide)) rfl <| .same ' ' <| .same '#' <| .nil _
  obtain ⟨-, hending, hquery⟩ := ofText_recased h
  exact ⟨h, hending.trans (congrArg Delivery.ending hd), hquery⟩

end FilterQuery
