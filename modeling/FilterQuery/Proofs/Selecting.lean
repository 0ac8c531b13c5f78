import FilterQuery.Proofs.Padding
import FilterQuery.Proofs.Relabeling
import FilterQuery.Proofs.Sorting

/-!
# Clauses and defaults

Whether a clause is there is settled when a text is read. A profile whose hook never panics makes
one selection of a query (`Profile.select_eq_answer`), which has a default in the place of a part
that the query does not have, and nowhere else. Only the keys of an order that was read are renamed:
no identifier is lost, and each new name stands where an identifier first gets it
(`SortItem.keys_renameKeys_of_first`). With nothing to rename the order is left as it was read,
which is also what writing it again would bring (`Renaming.renameKeys_eq_rewriteKeys`).
-/

namespace FilterQuery

namespace Parser

/-- Nothing that the hook is asked makes it panic. -/
def NeverPanics (p : Parser) : Prop :=
  ∀ hook ∈ p.hook, ∀ c message, hook c ≠ .panic message

/-- What stands for a call: its document, unless a hook puts another value there. -/
def value (p : Parser) (c : Call) : Json :=
  match p.hook with
  | none => c.document
  | some hook => hook.value c

end Parser

/-- The selection that a profile makes of a query if its hook does not panic. -/
def Profile.answer (p : Profile) (q : Query) : Selection where
  filter := .ofOption p.defaultFilter (q.filter.map (Condition.fill p.parser.value))
  order := .ofOption p.defaultOrder <| q.order.map fun items =>
    Direction.toJson (p.sortNames.renameKeys (SortItem.directions items))

namespace SortItem

variable {r : Renaming} {front back : List SortItem} {item : SortItem}

theorem keys_renameKeys_eq (r : Renaming) (items : List SortItem) :
    Entries.keys (r.renameKeys (directions items)) =
      (items.map fun item => r.apply item.identifier).eraseDups := by
  rw [keys_renameKeys, keys_directions, List.map_map]
  rfl

/-- The first item that gets a name gives it its place, behind those of the items in front. -/
theorem keys_renameKeys_of_first
    (h : r.apply item.identifier ∉ front.map fun item => r.apply item.identifier) :
    (front.map fun item => r.apply item.identifier).eraseDups ++ [r.apply item.identifier] <+:
      Entries.keys (r.renameKeys (directions (front ++ item :: back))) := by
  rw [keys_renameKeys_eq, List.map_append, List.map_cons]
  exact eraseDups_of_first h

end SortItem

theorem Clause.isFallback_ofOption {default : Json} {value : Option Json} :
    (ofOption default value).isFallback = true ↔ value = none := by
  cases value <;> simp [ofOption, isFallback]

theorem Parser.outcome_render {p : Parser} (hp : p.NeverPanics) (q : Query) :
    (p.render q).outcome =
      .ok ⟨q.filter.map (Condition.fill p.value), q.order.map SortItem.directions⟩ := by
  obtain ⟨_ | hook⟩ := p
  · exact congrArg Rendering.outcome q.render_none
  · exact congrArg Rendering.outcome (Query.render_of_values (q := q) fun c _ =>
      Call.render_of_hook (hp hook rfl c))

namespace Profile

variable {p : Profile} {q : Query}

theorem select_eq_error_iff (text : Option String) (e : ParseError) :
    p.select text = .error e ↔ Query.ofText (text.getD "") = .error e := by
  rw [select, Parser.parse]
  cases Query.ofText (text.getD "") <;> simp [Except.map]

theorem outcome_eq_answer (hp : p.parser.NeverPanics) (q : Query) :
    ((p.parser.render q).map p.complete).outcome = .ok (p.answer q) := by
  rw [Rendering.map, Parser.outcome_render hp]
  simp [Except.map, complete, answer, Function.comp_def]

theorem select_eq_answer (hp : p.parser.NeverPanics) {text : Option String}
    (h : Query.ofText (text.getD "") = .ok q) :
    ∃ r, p.select text = .ok r ∧ r.outcome = .ok (p.answer q) :=
  ⟨_, select_eq (p := p) h, outcome_eq_answer hp q⟩

end Profile

/-- Renaming drops no sort key and keeps their order. The keys of a selected order are the names
that the identifiers of the sort items get, by looking up each identifier once; each name stands
once, where the first item gets it. With nothing to rename the order is the one that was read, and
the filter never depends on the names to sort by. -/
theorem order_keys_renamed (p : Profile) {text : String} {q : Query} {items : List SortItem}
    (h : Query.ofText text = .ok q) (hi : q.order = some items) :
    ∃ r r₀, p.select (some text) = .ok r ∧
      { p with sortNames := .empty }.select (some text) = .ok r₀ ∧
      r.calls = r₀.calls ∧ r.outcome.map Selection.filter = r₀.outcome.map Selection.filter ∧
      (p.parser.NeverPanics → ∃ s, r.outcome = .ok s) ∧
      ∀ s, r.outcome = .ok s → ∃ fields, s.order = .parsed (.obj fields) ∧
        Entries.keys fields =
          (items.map fun item => p.sortNames.apply item.identifier).eraseDups ∧
        (Entries.keys fields).Nodup ∧
        (∀ key, key ∈ Entries.keys fields ↔
          ∃ item ∈ items, p.sortNames.apply item.identifier = key) ∧
        (∀ front item back, items = front ++ item :: back →
          p.sortNames.apply item.identifier ∉
              (front.map fun item => p.sortNames.apply item.identifier) →
            (front.map fun item => p.sortNames.apply item.identifier).eraseDups ++
              [p.sortNames.apply item.identifier] <+: Entries.keys fields) ∧
        (p.sortNames.isEmpty = true →
          s.order = .parsed (Direction.toJson (SortItem.directions items))) := by
  refine ⟨_, _, Profile.select_eq h, Profile.select_eq h, rfl, ?_, fun hp => ?_, fun s hs => ?_⟩
  · rw [Rendering.map, Rendering.map]
    cases (p.parser.render q).outcome <;> rfl
  · exact ⟨_, Profile.outcome_eq_answer hp q⟩
  · have horder := Profile.order_of_selection hi hs
    obtain ⟨fields, hfields, hkeys, -⟩ := Direction.exists_toJson_eq
      (p.sortNames.renameKeys (SortItem.directions items))
    have hnames := hkeys.trans (SortItem.keys_renameKeys_eq p.sortNames items)
    refine ⟨fields, by rw [horder, hfields], hnames, ?_, fun key => ?_, ?_, fun hempty => ?_⟩
    · rw [hnames]
      exact nodup_eraseDups _
    · simp [hnames]
    · rintro front item back rfl hfirst
      rw [hkeys]
      exact SortItem.keys_renameKeys_of_first hfirst
    · rw [horder, Renaming.renameKeys_of_isEmpty hempty]

theorem order_keys_renamed_of_swap : ∃ q r s fields,
    Query.ofText "ORDER BY a, c, b DESC, a" = .ok q ∧
    Profile.select ⟨.plain, .ofList [("a", "b"), ("b", "a"), ("c", "a")], .obj [], .obj []⟩
      (some "ORDER BY a, c, b DESC, a") = .ok r ∧ r.outcome = .ok s ∧
      s.order = .parsed (.obj fields) ∧ Entries.keys fields = ["b", "a"] := by
  have hread : Sentence.ofText "ORDER BY a, c, b DESC, a" = .ok (.order (.more
      (.more (.more (.one ⟨"a", none⟩) ⟨"c", none⟩) ⟨"b", some .descending⟩) ⟨"a", none⟩)) := by
    refine Stage.read_eq_ok_of_passes (.cons rfl nofun (.cons rfl nofun (.cons rfl nofun
      (.cons rfl nofun (.cons rfl nofun (.cons rfl nofun (.cons rfl nofun (.cons rfl nofun
        (.cons rfl nofun (.cons rfl nofun (.nil _))))))))))) ?_ rfl rfl
    nofun
  have h := (ofText_eq_ok_iff_sentence (by decide)).2 ⟨_, hread, rfl⟩
  obtain ⟨r, -, hr, -, -, -, hsome, horder⟩ := order_keys_renamed
    ⟨.plain, .ofList [("a", "b"), ("b", "a"), ("c", "a")], .obj [], .obj []⟩ h rfl
  obtain ⟨s, hs⟩ := hsome nofun
  obtain ⟨fields, hfields, hkeys, -⟩ := horder s hs
  exact ⟨_, r, s, fields, h, hr, hs, hfields, hkeys.trans (by decide)⟩

/-- A default stands for a clause that a text does not have, and only for such a one. A missing text
is read as an empty one, and what the parser refuses is refused with the same error, blanks without
a clause among it. Of an accepted text, either part of the selection is the default, as it was
given, if and only if the query does not have the part, whatever the other part is and whatever the
hook puts in the place of the leaves. -/
theorem default_iff_absent (p : Profile) (hp : p.parser.NeverPanics) :
    p.select none = p.select (some "") ∧
    (∀ text e, p.select text = .error e ↔ p.parser.parse (text.getD "") = .error e) ∧
    (∀ text e, p.select text = .error e ↔ Query.ofText (text.getD "") = .error e) ∧
    (∀ text, text ≠ "" → (∀ c ∈ text.toList, isBlank c = true) → p.select (some text) =
      .error (.grammatical ⟨.behind text, .filterOrOrder, .endOfInput⟩)) ∧
    ∀ text q, Query.ofText (text.getD "") = .ok q → ∃ r s,
      p.select text = .ok r ∧ r.outcome = .ok s ∧
      (s.filter.isFallback = true ↔ q.filter = none) ∧
      (s.order.isFallback = true ↔ q.order = none) ∧
      (q.filter = none → s.filter = .fallback p.defaultFilter) ∧
      (q.order = none → s.order = .fallback p.defaultOrder) ∧
      (∀ x, q.filter = some x → s.filter = .parsed (x.fill p.parser.value)) ∧
      ∀ items, q.order = some items → s.order =
        .parsed (Direction.toJson (p.sortNames.renameKeys (SortItem.directions items))) := by
  refine ⟨rfl, fun text e => ?_, Profile.select_eq_error_iff, fun text hne hb => ?_,
    fun text q h => ?_⟩
  · rw [Profile.select]
    cases p.parser.parse (text.getD "") <;> simp [Except.map]
  · exact (Profile.select_eq_error_iff _ _).2 (ofText_of_blanks hne hb)
  · obtain ⟨r, hr, hs⟩ := Profile.select_eq_answer hp h
    refine ⟨r, p.answer q, hr, hs, ?_, ?_, fun hf => ?_, fun ho => ?_, fun x hx => ?_,
      fun items hi => ?_⟩
    · rw [Profile.answer, Clause.isFallback_ofOption, Option.map_eq_none_iff]
    · rw [Profile.answer, Clause.isFallback_ofOption, Option.map_eq_none_iff]
    · rw [Profile.answer, hf]
      rfl
    · rw [Profile.answer, ho]
      rfl
    · rw [Profile.answer, hx]
      rfl
    · rw [Profile.answer, hi]
      rfl

/-- A hook puts `null` in the place of the only leaf, and both defaults are `null` as well. -/
theorem default_iff_absent_of_null : ∃ q r s, Query.ofText "a = 1" = .ok q ∧
    Profile.select ⟨⟨some fun _ => .replace .null⟩, .empty, .null, .null⟩ (some "a = 1") = .ok r ∧
      r.outcome = .ok s ∧ s.filter = .parsed .null ∧ s.order = .fallback .null := by
  have hread : Sentence.ofText "a = 1" =
      .ok (.filter (.one (.one (.test (.compare "a" .equal (.int 1)))))) := by
    refine Stage.read_eq_ok_of_passes (.cons rfl nofun (.cons rfl nofun (.cons rfl nofun
      (.nil _)))) ?_ rfl rfl
    nofun
  have h := (ofText_eq_ok_iff_sentence (by decide)).2 ⟨_, hread, rfl⟩
  obtain ⟨-, -, -, -, hselect⟩ := default_iff_absent
    ⟨⟨some fun _ => .replace .null⟩, .empty, .null, .null⟩ (by rintro _ ⟨⟩ _ _ ⟨⟩)
  obtain ⟨r, s, hr, hs, -, -, -, horder, hfilter, -⟩ := hselect (some "a = 1") _ h
  exact ⟨_, r, s, h, hr, hs, hfilter _ rfl, horder rfl⟩

end FilterQuery
