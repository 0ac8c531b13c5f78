import FilterQuery.Proofs.Slices

/-!
# Two texts, one behind the other

What a cursor brings depends on its place only in the places it reports: from a shifted cursor comes
the same, shifted (`Cursor.StandsIn.deliver_shift`). So the lexemes of two texts one behind the
other are those of the first and the shifted ones of the second, unless the last lexeme of the first
ends where the second begins and would be read on into it (`tokenize_append`).
-/

namespace FilterQuery

def Lexeme.shift (front : String) (l : Lexeme) : Lexeme :=
  ⟨l.token, l.text, l.position.shift front⟩

def LexError.shift (front : String) (e : LexError) : LexError :=
  ⟨e.position.shift front, e.fault⟩

def Delivery.shift (front : String) (d : Delivery) : Delivery where
  lexemes := d.lexemes.map (Lexeme.shift front)
  ending := (d.ending.map (Lexeme.shift front)).mapError (LexError.shift front)

namespace Cursor

def shift (front : String) (c : Cursor) : Cursor :=
  ⟨c.rest, c.position.shift front⟩

variable {c : Cursor} {text : String}

theorem StandsIn.advance_shift (h : c.StandsIn text) (front : String) (cs : List Char) :
    (c.position.shift front).advance cs = (c.position.advance cs).shift front := by
  obtain ⟨before, -, hpos⟩ := h
  rw [hpos, Position.shift_behind, Position.advance_behind, Position.advance_behind,
    Position.shift_behind, String.append_assoc]

/-- A shifted cursor brings the same, shifted. -/
theorem StandsIn.next_shift (h : c.StandsIn text) (front : String) :
    (c.shift front).next =
      ((c.next.1.map (Lexeme.shift front)).mapError (LexError.shift front),
        c.next.2.shift front) := by
  have hskip : (c.shift front).skip = c.skip.shift front := by
    rw [Cursor.skip, Cursor.shift, h.advance_shift]
    rfl
  have hafter : ∀ s : Scan, (c.skip.shift front).behind s = (c.skip.behind s).shift front := by
    intro s
    rw [Cursor.behind, Cursor.shift, h.skip.advance_shift]
    rfl
  have hrest : (c.skip.shift front).rest = c.skip.rest := rfl
  rw [Cursor.next, Cursor.next, hskip, hrest, hafter]
  rcases (scan c.skip.rest).outcome with f | t
  · cases f <;> rfl
  · rfl

theorem StandsIn.deliver_shift (h : c.StandsIn text) (front : String) :
    (c.shift front).deliver = c.deliver.shift front := by
  have hnext := h.next_shift front
  fun_induction deliver c with
  | case1 c e after hn =>
    rw [hn] at hnext
    rw [deliver_of_error hnext]
    rfl
  | case2 c lexeme after hn ht =>
    rw [hn] at hnext
    rw [deliver_of_end hnext ht]
    rfl
  | case3 c lexeme after hn ht _ rest ih =>
    have hafter := h.next.1
    rw [hn] at hnext hafter
    rw [deliver_of_ok hnext ht, ih hafter (hafter.next_shift front)]
    rfl

theorem next_append_blanks {blanks : List Char} (hb : ∀ c ∈ blanks, isBlank c = true)
    (cs : List Char) (p : Position) :
    next ⟨blanks ++ cs, p⟩ = next ⟨cs, p.advance blanks⟩ := by
  have hskip : skip ⟨blanks ++ cs, p⟩ = skip ⟨cs, p.advance blanks⟩ := by
    rw [skip, skip, skipBlanks, skipBlanks, List.takeWhile_append_of_pos hb,
      List.dropWhile_append_of_pos hb, Position.advance_append]
  rw [next, next, hskip]

theorem deliver_of_next_eq {d : Cursor} (h : c.next = d.next) : c.deliver = d.deliver := by
  rcases hd : d.next with ⟨e | lexeme, after⟩
  · rw [deliver_of_error hd, deliver_of_error (h.trans hd)]
  · by_cases ht : lexeme.token = .endOfInput
    · rw [deliver_of_end hd ht, deliver_of_end (h.trans hd) ht]
    · rw [deliver_of_ok hd ht, deliver_of_ok (h.trans hd) ht]

/-- Behind `front` and blanks comes what comes from `v`, shifted. -/
theorem deliver_behind_blanks {blanks : List Char} (hb : ∀ c ∈ blanks, isBlank c = true)
    (front v : String) : deliver ⟨blanks ++ v.toList, .behind front⟩ =
      (ofText v).deliver.shift (front ++ String.ofList blanks) := by
  have hbehind : (⟨v.toList, (Position.behind front).advance blanks⟩ : Cursor) =
      (ofText v).shift (front ++ String.ofList blanks) := by
    rw [Position.advance_behind, shift, ofText, ← Position.behind_empty, Position.shift_behind,
      String.append_empty]
  rw [deliver_of_next_eq (next_append_blanks hb v.toList _), hbehind,
    (standsIn_ofText v).deliver_shift]

/-- Nothing is left that would be read along with the last lexeme that is passed, and that lexeme
ends where the cursor is. -/
theorem Passes.getLast {d : Cursor} {lexemes : List Lexeme} (hp : Passes c lexemes d) :
    ∀ l ∈ lexemes.getLast?, l.stop = d.position.offset ∧
      ∀ x ∈ d.rest.head?, l.token.gluesTo x = false := by
  intro l hl
  obtain ⟨front, rfl⟩ := List.getLast?_eq_some_iff.1 hl
  obtain ⟨mid, -, hn, ht⟩ := hp.eq_snoc
  obtain ⟨-, word, -, -, -, hs, -, -⟩ := next_eq_ok hn ht
  exact ⟨(span_next hn ht).2.2, not_glued_scan hs ht⟩

end Cursor

section Glued

variable {u v : String} {words front back : List Lexeme} {c d : Cursor}

/-- The last of the lexemes ends where `u` ends, and the first character of `v` would be read along
with it. -/
def Glued (lexemes : List Lexeme) (u v : String) : Prop :=
  ∃ l ∈ lexemes.getLast?, l.stop = u.utf8ByteSize ∧
    ∃ c ∈ v.toList.head?, l.token.gluesTo c = true

/-- Behind the last lexeme stands a blank, or `v` does, which it is not glued to. -/
theorem not_gluesTo_of_not_glued (hp : (Cursor.ofText u).Passes words d)
    (hb : ∀ x ∈ d.rest, isBlank x = true) (hg : ¬ Glued words u v) :
    ∀ l ∈ words.getLast?, ∀ x ∈ (d.rest ++ v.toList).head?,
      l.token.gluesTo x = false := by
  intro l hl x hx
  obtain ⟨⟨front, htext, hpos⟩, -⟩ := hp.standsIn (Cursor.standsIn_ofText u)
  cases hd : d.rest with
  | cons y ys =>
    rw [hd] at hx
    obtain rfl : y = x := Option.some.inj hx
    exact not_gluesTo_of_isBlank (hb y (by simp [hd])) l.token
  | nil =>
    rw [hd] at hx htext
    have hstop : l.stop = u.utf8ByteSize := by
      rw [(hp.getLast l hl).1, hpos, htext]
      simp [Position.behind]
    simpa using fun h => hg ⟨l, hl, hstop, x, hx, h⟩

theorem deliver_append_of_not_glued (hp : (Cursor.ofText u).Passes words d)
    (hb : ∀ x ∈ d.rest, isBlank x = true) (hg : ¬ Glued words u v) :
    (Cursor.ofText (u ++ v)).deliver =
      ⟨words ++ ((Cursor.ofText v).deliver.shift u).lexemes,
        ((Cursor.ofText v).deliver.shift u).ending⟩ := by
  obtain ⟨passed, hrest, -, -, hagain⟩ := hp.again
  obtain ⟨⟨front, htext, hpos⟩, -⟩ := hp.standsIn (Cursor.standsIn_ofText u)
  have hpass := hagain (d.rest ++ v.toList) (not_gluesTo_of_not_glued hp hb hg)
  have hstart : (⟨passed ++ (d.rest ++ v.toList), (Cursor.ofText u).position⟩ : Cursor) =
      .ofText (u ++ v) := by
    have hu : u.toList = passed ++ d.rest := hrest
    simp [Cursor.ofText, hu]
  rw [hstart] at hpass
  rw [Cursor.deliver_of_passes hpass, hpos, Cursor.deliver_behind_blanks hb, ← htext]

theorem complete_shift (words : List Lexeme) (d : Delivery) (front : String) :
    (Delivery.mk (words ++ (d.shift front).lexemes) (d.shift front).ending).complete =
      match d.complete with
      | .ok more => .ok (words ++ more.map (Lexeme.shift front))
      | .error e => .error (e.shift front) := by
  obtain ⟨lexemes, e | last⟩ := d
  · rfl
  · simp [Delivery.complete, Delivery.shift, Except.map, Except.mapError]

theorem Cursor.Passes.split (hp : Passes c (front ++ back) d) :
    ∃ mid, Passes c front mid ∧ Passes mid back d := by
  induction front generalizing c with
  | nil => exact ⟨c, .nil c, hp⟩
  | cons l front ih =>
    obtain _ | ⟨h, ht, hp⟩ := hp
    obtain ⟨mid, hmid, hback⟩ := ih hp
    exact ⟨mid, .cons h ht hmid, hback⟩

theorem Cursor.Passes.exists_of_append (hp : Passes c (front ++ back) d) :
    ∃ mid, Passes c front mid := by
  obtain ⟨mid, hmid, -⟩ := hp.split
  exact ⟨mid, hmid⟩

/-- In front of something that would be read along with the last of them, the lexemes are not
passed. -/
theorem not_passes_of_glued (hg : Glued words u v) (d : Cursor) :
    ¬ (Cursor.ofText (u ++ v)).Passes words d := by
  intro hp
  obtain ⟨l, hl, hstop, c, hc, hglues⟩ := hg
  obtain ⟨⟨front, htext, hpos⟩, -⟩ := hp.standsIn (Cursor.standsIn_ofText (u ++ v))
  obtain ⟨hend, hnot⟩ := hp.getLast l hl
  have hsize : u.utf8ByteSize = front.utf8ByteSize := by
    rw [← hstop, hend, hpos]
    rfl
  obtain ⟨-, rfl⟩ := eq_of_append_eq htext hsize
  rw [String.toList_ofList] at hc
  rw [hnot c hc] at hglues
  cases hglues

end Glued

/-- If `u` has lexemes up to its end, then the lexemes of `u` and `v`, one behind the other, are
those of `u` and the shifted ones of `v`, or end with the shifted error of `v`, unless `u` and `v`
are glued; and if they are, they are not. -/
theorem tokenize_append {u : String} {words : List Lexeme} {last : Lexeme}
    (h : tokenize u = .ok (words ++ [last])) (v : String) :
    (¬ Glued words u v → tokenize (u ++ v) =
      match tokenize v with
      | .ok more => .ok (words ++ more.map (Lexeme.shift u))
      | .error e => .error (e.shift u)) ∧
    (Glued words u v → ∀ more, tokenize v = .ok more →
      tokenize (u ++ v) ≠ .ok (words ++ more.map (Lexeme.shift u))) := by
  obtain ⟨passed, d, hp, hb, heq⟩ := exists_passes_of_tokenize h
  obtain ⟨rfl, -⟩ := List.append_inj' heq rfl
  refine ⟨fun hg => ?_, fun hg more hv hjoined => ?_⟩
  · rw [tokenize, deliver_append_of_not_glued hp hb hg, complete_shift]
    rfl
  · obtain ⟨front, -, -, -, rfl⟩ := exists_passes_of_tokenize hv
    obtain ⟨passed, after, hpass, -, heq⟩ := exists_passes_of_tokenize hjoined
    rw [List.map_append, List.map_singleton, ← List.append_assoc] at heq
    obtain ⟨rfl, -⟩ := List.append_inj' heq rfl
    obtain ⟨mid, hmid⟩ := hpass.exists_of_append
    exact not_passes_of_glued hg mid hmid

theorem tokenize_append_samples :
    (∃ words last, tokenize "'é\n'" = .ok (words ++ [last]) ∧ ¬ Glued words "'é\n'" "#" ∧
      tokenize ("'é\n'" ++ "#") = .error ⟨⟨5, 2, 2⟩, .invalidCharacter '#'⟩) ∧
    ∃ words last more, tokenize "a<" = .ok (words ++ [last]) ∧ tokenize "=1" = .ok more ∧
      Glued words "a<" "=1" ∧
      tokenize ("a<" ++ "=1") ≠ .ok (words ++ more.map (Lexeme.shift "a<")) := by
  constructor
  · have hu := @tokenize_of_passes "'é\n'" _ ⟨[], _⟩ (.cons rfl (by simp) (.nil _)) (by simp)
    have hv : tokenize "#" = .error ⟨.start, .invalidCharacter '#'⟩ := by
      rw [tokenize, Cursor.deliver_of_error rfl]
      rfl
    have hg : ¬ Glued [⟨.literal (.string "é\n"), "'é\n'", .start⟩] "'é\n'" "#" := by
      rintro ⟨l, hl, -, c, -, hc⟩
      cases hl
      cases hc
    refine ⟨_, _, hu, hg, ?_⟩
    rw [(tokenize_append hu "#").1 hg, hv]
    rfl
  · have hp : (Cursor.ofText "a<").Passes
        [⟨.identifier "a", "a", .start⟩, ⟨.comparison .less, "<", ⟨1, 1, 2⟩⟩]
        ⟨[], ⟨2, 1, 3⟩⟩ := .cons rfl (by simp) (.cons rfl (by simp) (.nil _))
    have hv : (Cursor.ofText "=1").Passes
        [⟨.comparison .equal, "=", .start⟩, ⟨.literal (.int 1), "1", ⟨1, 1, 2⟩⟩]
        ⟨[], ⟨2, 1, 3⟩⟩ := .cons rfl (by simp) (.cons rfl (by simp) (.nil _))
    have hu := tokenize_of_passes hp (by simp)
    have hmore := tokenize_of_passes hv (by simp)
    have hg : Glued [⟨.identifier "a", "a", .start⟩, ⟨.comparison .less, "<", ⟨1, 1, 2⟩⟩]
        "a<" "=1" := ⟨_, rfl, rfl, '=', rfl, rfl⟩
    exact ⟨_, _, _, hu, hmore, hg, (tokenize_append hu "=1").2 hg _ hmore⟩

end FilterQuery
