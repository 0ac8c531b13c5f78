import FilterQuery.Proofs.Joining

/-!
# Cutting texts

Two texts one behind the other have the tokens of both, as long as the last token of the first would
not be read on into the second (`HasTokens.append`). In the other direction a text can be cut
between two lexemes, and each part has the lexemes that lie in it (`tokenize_cut`). So a piece of a
text can be taken out and something else put in its place (`Cut.hasTokens`).
-/

namespace FilterQuery

namespace Delivery

theorem map_token_shift (d : Delivery) (front : String) :
    (d.shift front).lexemes.map Lexeme.token = d.lexemes.map Lexeme.token := by
  simp [shift, Lexeme.shift]

theorem ending_shift_eq_ok {d : Delivery} {front : String} {last : Lexeme} :
    (d.shift front).ending = .ok last ↔ ∃ l, d.ending = .ok l ∧ l.shift front = last := by
  obtain ⟨lexemes, e | l⟩ := d <;> simp [shift, Except.map, Except.mapError]

end Delivery

section Together

variable {text : String} {ts : List Token}

/-- A text without tokens is blank. -/
theorem hasTokens_nil (hb : ∀ c ∈ text.toList, isBlank c = true) : HasTokens text [] :=
  ⟨_, tokenize_of_passes (.nil _) hb, rfl⟩

/-- A word that is read to its end is one token. -/
theorem hasTokens_of_scan {word : String} {t : Token}
    (h : scan word.toList = ⟨.ok t, word.toList, []⟩) (ht : t ≠ .endOfInput) :
    HasTokens word [t] := by
  have hnext := @Cursor.next_of_scan [] word.toList [] t .start (by simp) (by simpa using h) ht
  rw [List.append_nil, List.nil_append] at hnext
  exact ⟨_, @tokenize_of_passes word _ ⟨[], _⟩ (.cons hnext ht (.nil _)) (by simp), rfl⟩

theorem HasTokens.append {u v : String} {us : List Token} (hu : HasTokens u ts)
    (hv : HasTokens v us)
    (hg : ∀ t ∈ ts.getLast?, ∀ c ∈ v.toList.head?, t.gluesTo c = false) :
    HasTokens (u ++ v) (ts ++ us) := by
  obtain ⟨lexemes, hl, hts⟩ := hu
  obtain ⟨words, d, hp, hb, rfl⟩ := exists_passes_of_tokenize hl
  rw [List.map_append] at hts
  obtain rfl := List.append_inj_left' hts rfl
  have hng : ¬ Glued words u v := by
    rintro ⟨l, hl, -, c, hc, hglues⟩
    rw [hg l.token (by simp [Option.mem_def.1 hl]) c hc] at hglues
    cases hglues
  obtain ⟨last, hlast, hus⟩ := hasTokens_iff.1 hv
  rw [hasTokens_iff, deliver_append_of_not_glued hp hb hng]
  refine ⟨last.shift u, Delivery.ending_shift_eq_ok.2 ⟨last, hlast, rfl⟩, ?_⟩
  rw [List.map_append, Delivery.map_token_shift, hus]

/-- A blank in front makes no difference. -/
theorem HasTokens.blank (h : HasTokens text ts) : HasTokens (" " ++ text) ts := by
  have hblank : HasTokens " " [] := hasTokens_nil fun c hc => by
    rw [List.mem_singleton.1 hc]
    decide
  simpa using hblank.append h (by simp)

theorem hasTokens_openParen : HasTokens "(" [.openParen] :=
  hasTokens_of_scan rfl nofun

theorem hasTokens_closeParen : HasTokens ")" [.closeParen] :=
  hasTokens_of_scan rfl nofun

theorem HasTokens.enclose (h : HasTokens text ts) :
    HasTokens ("(" ++ text ++ ")") (.openParen :: (ts ++ [.closeParen])) := by
  have hopen := hasTokens_openParen.append h fun t ht c _ => by
    rw [← Option.some.inj ht]
    rfl
  refine hopen.append hasTokens_closeParen fun t _ c hc => ?_
  rw [← Option.some.inj hc]
  exact not_gluesTo (by decide) (by decide) t

end Together

section Cutting

variable {u v : String} {ls rs : List Lexeme}

/-- Between two lexemes a text is blank. -/
theorem isBlank_of_between {text front between back : String}
    (h : tokenize text = .ok (ls ++ rs)) (htext : text = front ++ between ++ back)
    (hl : ∀ l ∈ ls, l.stop ≤ front.utf8ByteSize)
    (hr : ∀ l ∈ rs, (front ++ between).utf8ByteSize ≤ l.position.offset) :
    ∀ x ∈ between.toList, isBlank x = true := by
  intro x hx
  obtain ⟨before, after, hsplit⟩ := List.append_of_mem hx
  have hbetween : between = String.ofList before ++ String.singleton x ++ String.ofList after := by
    rw [← String.toList_inj, hsplit]
    simp
  have hplace : text = (front ++ String.ofList before) ++ String.singleton x ++
      (String.ofList after ++ back) := by
    rw [htext, hbetween]
    simp only [String.append_assoc]
  rcases isBlank_or_mem_of_tokenize h hplace with hx | ⟨l, hm, hle, hlt⟩
  · exact hx
  rw [String.utf8ByteSize_append] at hle hlt
  rcases List.mem_append.1 hm with hm | hm
  · have hstop := hl l hm
    omega
  · have hstart := hr l hm
    have hsize := x.utf8Size_pos
    rw [hbetween] at hstart
    simp only [String.utf8ByteSize_append, String.utf8ByteSize_singleton] at hstart
    omega

/-- The cursor between the lexemes in front of a cut and those behind it has nothing but blanks up
to the cut. -/
theorem exists_passes_of_cut (h : tokenize (u ++ v) = .ok (ls ++ rs)) (hne : rs ≠ [])
    (hl : ∀ l ∈ ls, l.stop ≤ u.utf8ByteSize) (hr : ∀ l ∈ rs, u.utf8ByteSize ≤ l.position.offset) :
    ∃ front between more d, u = front ++ between ∧ (∀ x ∈ between.toList, isBlank x = true) ∧
      (Cursor.ofText (u ++ v)).Passes ls ⟨between.toList ++ v.toList, .behind front⟩ ∧
      Cursor.Passes ⟨between.toList ++ v.toList, .behind front⟩ more d ∧
      (∀ x ∈ d.rest, isBlank x = true) ∧
      rs.map Lexeme.token = more.map Lexeme.token ++ [.endOfInput] := by
  obtain ⟨words, d, hp, hb, heq⟩ := exists_passes_of_tokenize h
  obtain ⟨more, last, rfl⟩ := (List.eq_nil_or_concat' rs).resolve_left hne
  rw [← List.append_assoc] at heq
  obtain ⟨rfl, hlast⟩ := List.append_inj' heq rfl
  obtain rfl := List.singleton_inj.1 hlast
  obtain ⟨⟨rest, position⟩, hls, hmore⟩ := hp.split
  obtain ⟨⟨front, htext, hpos⟩, -⟩ := hls.standsIn (Cursor.standsIn_ofText (u ++ v))
  have hle : front.utf8ByteSize ≤ u.utf8ByteSize := by
    rcases List.eq_nil_or_concat' ls with rfl | ⟨_, l, rfl⟩
    · cases hls
      have hzero : 0 = front.utf8ByteSize := congrArg Position.offset hpos
      omega
    · have hstop := hl l (by simp)
      rwa [(hls.getLast l (by simp)).1, hpos] at hstop
  subst hpos
  obtain ⟨between, rfl, hrest⟩ := exists_append_of_le htext.symm hle
  obtain rfl : rest = between.toList ++ v.toList := by
    simpa using congrArg String.toList hrest
  have hstop : ∀ l ∈ ls, l.stop ≤ front.utf8ByteSize := fun l hm => (hls.ordered.2.1 l hm).2.2.2
  exact ⟨front, between, more, d, rfl, isBlank_of_between h rfl hstop hr, hls, hmore, hb, by simp⟩

/-- A text that is cut between two lexemes: the first part has the lexemes in front of the cut, and
the second part the tokens behind it. -/
theorem tokenize_cut (h : tokenize (u ++ v) = .ok (ls ++ rs)) (hne : rs ≠ [])
    (hl : ∀ l ∈ ls, l.stop ≤ u.utf8ByteSize) (hr : ∀ l ∈ rs, u.utf8ByteSize ≤ l.position.offset) :
    tokenize u = .ok (ls ++ [⟨.endOfInput, "", .behind u⟩]) ∧
      ∃ ts, HasTokens v ts ∧ rs.map Lexeme.token = ts ++ [.endOfInput] := by
  obtain ⟨front, between, more, d, rfl, hblank, hls, hmore, hb, hrs⟩ :=
    exists_passes_of_cut h hne hl hr
  constructor
  · obtain ⟨passed, hpassed, -, -, hagain⟩ := hls.again
    have hchars : (front ++ between).toList = passed ++ between.toList := by
      rw [Cursor.ofText, String.toList_append, ← List.append_assoc] at hpassed
      exact List.append_cancel_right hpassed
    have hagain := hagain between.toList fun l _ x hx =>
      not_gluesTo_of_isBlank (hblank x (List.mem_of_mem_head? hx)) l.token
    rw [← hchars] at hagain
    exact tokenize_of_passes hagain hblank
  · have hdeliver := Cursor.deliver_of_passes hmore
    rw [Cursor.deliver_behind_blanks hblank, String.ofList_toList,
      Cursor.deliver_of_end (Cursor.next_blanks d.position hb) rfl, List.append_nil] at hdeliver
    obtain ⟨last, hlast, -⟩ :=
      Delivery.ending_shift_eq_ok.1 (congrArg Delivery.ending hdeliver)
    refine ⟨more.map Lexeme.token, hasTokens_iff.2 ⟨last, hlast, ?_⟩, hrs⟩
    rw [← Delivery.map_token_shift _ (front ++ between), hdeliver]

end Cutting

section Piece

variable {text front mid back : String} {ls ms rs : List Lexeme} {l : Lexeme}

/-- The text is put together from `front`, `mid` and `back`, and its lexemes are `ls` in `front`,
`ms` in `mid` and `rs`, the end of the input among them, in `back`. -/
structure Cut (text front mid back : String) (ls ms rs : List Lexeme) : Prop where
  text_eq : text = front ++ mid ++ back
  lexemes : tokenize text = .ok (ls ++ ms ++ rs)
  ends : rs ≠ []
  inFront : ∀ l ∈ ls, l.stop ≤ front.utf8ByteSize
  inMid : ∀ l ∈ ms, front.utf8ByteSize ≤ l.position.offset ∧ l.stop ≤ (front ++ mid).utf8ByteSize
  inBack : ∀ l ∈ rs, (front ++ mid).utf8ByteSize ≤ l.position.offset

/-- A lexeme of a text, cut out. -/
theorem exists_cut_of_lexeme (h : tokenize text = .ok (ls ++ l :: rs)) (hne : rs ≠ []) :
    ∃ front back, Cut text front l.text back ls [l] rs ∧ l.position = .behind front := by
  obtain ⟨front, back, htext, hpos⟩ := standsIn_of_tokenize h l (by simp)
  have hstop : l.stop = (front ++ l.text).utf8ByteSize := by
    rw [Lexeme.stop, hpos, String.utf8ByteSize_append]
    rfl
  have hstart : l.position.offset = front.utf8ByteSize := congrArg Position.offset hpos
  obtain ⟨-, hbehind, hfront⟩ := List.pairwise_append.1 (pairwise_of_tokenize h)
  refine ⟨front, back, ⟨htext, by simpa using h, hne, fun m hm => ?_, ?_, fun m hm => ?_⟩, hpos⟩
  · exact hstart ▸ hfront m hm l List.mem_cons_self
  · exact List.forall_mem_singleton.2 ⟨hstart.ge, hstop.le⟩
  · exact hstop ▸ (List.pairwise_cons.1 hbehind).1 m hm

/-- Lexemes of a text that stand one behind the other, cut out: from where the first of them starts
to where the last stops. -/
theorem exists_cut (h : tokenize text = .ok (ls ++ ms ++ rs)) (hms : ms ≠ []) (hrs : rs ≠ []) :
    ∃ front mid back, Cut text front mid back ls ms rs := by
  obtain ⟨first, more, hfirst⟩ := List.exists_cons_of_ne_nil hms
  obtain ⟨init, last, hlast⟩ := (List.eq_nil_or_concat' ms).resolve_left hms
  obtain ⟨front, rest, hf, -⟩ := @exists_cut_of_lexeme text ls (more ++ rs) first
    (by simpa [hfirst] using h) (by simp [hrs])
  obtain ⟨upTo, back, hb, -⟩ := @exists_cut_of_lexeme text (ls ++ init) rs last
    (by simpa [hlast] using h) hrs
  have hstart : ∀ m ∈ ms, front.utf8ByteSize ≤ m.position.offset := by
    intro m hm
    rw [hfirst] at hm
    rcases List.mem_cons.1 hm with rfl | hm
    · exact (hf.inMid m (by simp)).1
    · have hbehind := hf.inBack m (List.mem_append_left _ hm)
      rw [String.utf8ByteSize_append] at hbehind
      omega
  have hstop : ∀ m ∈ ms, m.stop ≤ (upTo ++ last.text).utf8ByteSize := by
    intro m hm
    rw [hlast] at hm
    rcases List.mem_append.1 hm with hm | hm
    · have hinFront := hb.inFront m (List.mem_append_right _ hm)
      rw [String.utf8ByteSize_append]
      omega
    · exact (hb.inMid m hm).2
  have hle : front.utf8ByteSize ≤ (upTo ++ last.text).utf8ByteSize :=
    (hstart last (by simp [hlast])).trans
      ((Nat.le_add_right _ _).trans (hstop last (by simp [hlast])))
  have htext := hf.text_eq
  rw [String.append_assoc] at htext
  obtain ⟨mid, hmid, -⟩ := exists_append_of_le (htext.symm.trans hb.text_eq) hle
  rw [hmid] at hstop
  exact ⟨front, mid, back, by rw [← hmid, hb.text_eq], h, hrs, hf.inFront,
    fun m hm => ⟨hstart m hm, hstop m hm⟩, hmid ▸ hb.inBack⟩

/-- Behind a lexeme that is not the end of the input stands another. -/
theorem ne_nil_of_tokenize (h : tokenize text = .ok (ls ++ l :: rs)) (ht : l.token ≠ .endOfInput) :
    rs ≠ [] := by
  rintro rfl
  obtain ⟨words, d, -, -, heq⟩ := exists_passes_of_tokenize h
  obtain ⟨-, hl⟩ := List.append_inj' heq rfl
  exact ht (by rw [List.singleton_inj.1 hl])

theorem Cut.hasTokens (h : Cut text front mid back ls ms rs) :
    HasTokens front (ls.map Lexeme.token) ∧ HasTokens mid (ms.map Lexeme.token) ∧
      ∃ ts, HasTokens back ts ∧ rs.map Lexeme.token = ts ++ [.endOfInput] := by
  have hlexemes := h.lexemes
  rw [h.text_eq] at hlexemes
  have hls : ∀ l ∈ ls, l.stop ≤ (front ++ mid).utf8ByteSize := fun l hl => by
    rw [String.utf8ByteSize_append]
    exact Nat.le_trans (h.inFront l hl) (Nat.le_add_right _ _)
  obtain ⟨hfront, hback⟩ := tokenize_cut hlexemes h.ends
    (List.forall_mem_append.2 ⟨hls, fun l hl => (h.inMid l hl).2⟩) h.inBack
  have hend : front.utf8ByteSize ≤ (front ++ mid).utf8ByteSize := by
    rw [String.utf8ByteSize_append]
    exact Nat.le_add_right _ _
  rw [List.append_assoc] at hfront
  obtain ⟨hfront, ts, hmid, hts⟩ := tokenize_cut hfront (by simp) h.inFront
    (List.forall_mem_append.2 ⟨fun l hl => (h.inMid l hl).1, List.forall_mem_singleton.2 hend⟩)
  rw [List.map_append] at hts
  rw [← List.append_inj_left' hts rfl] at hmid
  exact ⟨⟨_, hfront, by simp⟩, hmid, hback⟩

/-- Something else in place of `mid` that is not read on into from the front or into the back. -/
theorem Cut.hasTokens_replace (h : Cut text front mid back ls ms rs) {new : String}
    {us : List Token} (hnew : HasTokens new us)
    (hfirst : ∀ c ∈ new.toList.head?, ∀ t : Token, t.gluesTo c = false) {u : Token}
    (hlast : us.getLast? = some u) (hu : ∀ c, u.gluesTo c = false) :
    ∃ ts, rs.map Lexeme.token = ts ++ [.endOfInput] ∧
      HasTokens (front ++ new ++ back) (ls.map Lexeme.token ++ us ++ ts) := by
  obtain ⟨hfront, -, ts, hback, hts⟩ := h.hasTokens
  have hbegin := hfront.append hnew fun t _ c hc => hfirst c hc t
  refine ⟨ts, hts, hbegin.append hback fun t ht c _ => ?_⟩
  rw [List.getLast?_append, hlast] at ht
  rw [← Option.some.inj ht]
  exact hu c

end Piece

end FilterQuery
