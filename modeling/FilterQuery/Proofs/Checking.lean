import FilterQuery.Command.Line
import FilterQuery.Proofs.Selecting
import Mathlib.Data.List.DropRight

/-!
# Checking

A text is checked without the line ends behind it. All ways to check a text read what is left, so
they accept the same texts and fail with the same error (`CheckOptions.exists_checked_eq`), unless a
configuration is wanted and does not load. What is cut off are blanks, so the text as it was given
says the same and has the same error, but for the place of its end (`ofText_trimLineEnds`). Only a
text of line ends alone has become another one.
-/

namespace FilterQuery

/-- The document of a query without a hook. -/
def Query.document (q : Query) : Document :=
  ⟨q.filter.map (Condition.fill Call.document), q.order.map SortItem.directions⟩

/-- The value, or an empty object in the place of `null`. -/
def Json.orEmpty : Json → Json
  | .null => .obj []
  | value => value

theorem Parser.parse_plain (text : String) :
    Parser.plain.parse text = (Query.ofText text).map fun q => .done q.document := by
  rw [Parser.parse]
  cases Query.ofText text with
  | error e => rfl
  | ok q => exact congrArg Except.ok q.render_none

theorem Condition.fill_document_ne_null (x : Condition) : x.fill Call.document ≠ .null := by
  cases x <;> nofun

section OrEmpty

variable {value : Option Json}

theorem getD_null_eq_null_iff (h : value ≠ some .null) :
    value.getD .null = .null ↔ value = none := by
  cases value <;> simp_all

theorem Clause.value_ofOption_empty (h : value ≠ some .null) :
    (ofOption (.obj []) value).value = (value.getD .null).orEmpty := by
  rcases value with _ | value
  · rfl
  · cases value <;> simp_all [ofOption, Clause.value, Json.orEmpty]

end OrEmpty

namespace Query

theorem filter_document_ne_null (q : Query) : q.document.filter ≠ some .null := by
  simp [document, Condition.fill_document_ne_null]

theorem order_document_ne_null (q : Query) :
    q.document.order.map Direction.toJson ≠ some .null := by
  simp [document, Direction.toJson]

end Query

namespace Profile

theorem neverPanics_ofSettings (s : Settings) : (ofSettings s).parser.NeverPanics := by
  intro hook hhook c message
  unfold ofSettings at hhook
  split_ifs at hhook <;> cases hhook
  exact Hook.rename_ne_panic _ c message

/-- With settings that say nothing, the default of either part is an empty object, and a part that
is there is as it is without a configuration. -/
theorem answer_ofSettings_of_isEmpty {s : Settings} (h : s.isEmpty = true) (q : Query) :
    (ofSettings s).answer q =
      ⟨.ofOption (.obj []) q.document.filter,
        .ofOption (.obj []) (q.document.order.map Direction.toJson)⟩ := by
  obtain ⟨sortNames, conditionNames, filter, order⟩ := s
  simp only [Settings.isEmpty, Bool.and_eq_true, Option.isNone_iff_eq_none] at h
  obtain ⟨⟨⟨hsort, hcondition⟩, rfl⟩, rfl⟩ := h
  have hvalue : (ofSettings ⟨sortNames, conditionNames, none, none⟩).parser.value =
      Call.document := by
    funext c
    simp [ofSettings, Parser.value, hcondition]
  rw [answer, hvalue]
  simp [ofSettings, Query.document, Renaming.renameKeys_of_isEmpty hsort, Function.comp_def]

end Profile

namespace Command

def isLineEnd (c : Char) : Bool :=
  c = '\n' || c = '\r'

/-- A configuration that is named loads. -/
def CheckOptions.Loads (o : CheckOptions) (file : String → Contents) : Prop :=
  ∀ path ∈ o.config, ∃ s, Settings.load (file path) = .ok s

section LineEnds

variable {c : Char} {text : String}

theorem isLineEnd_iff : isLineEnd c = true ↔ c = '\n' ∨ c = '\r' := by
  simp [isLineEnd]

theorem isBlank_of_isLineEnd (h : isLineEnd c = true) : isBlank c = true := by
  rcases isLineEnd_iff.1 h with rfl | rfl <;> decide

theorem trimLineEnds_eq (text : String) :
    trimLineEnds text = String.ofList (text.toList.rdropWhile isLineEnd) :=
  rfl

theorem trimLineEnds_append (text : String) :
    trimLineEnds text ++ String.ofList (text.toList.rtakeWhile isLineEnd) = text := by
  rw [trimLineEnds_eq, ← String.ofList_append, List.rdropWhile_append_rtakeWhile,
    String.ofList_toList]

theorem trimLineEnds_eq_empty_iff :
    trimLineEnds text = "" ↔ ∀ c ∈ text.toList, isLineEnd c = true := by
  rw [trimLineEnds_eq, ← String.toList_inj, String.toList_ofList]
  exact List.rdropWhile_eq_nil_iff

theorem not_isLineEnd_getLast?_trimLineEnds (h : c ∈ (trimLineEnds text).toList.getLast?) :
    isLineEnd c = false := by
  rw [trimLineEnds_eq, String.toList_ofList] at h
  obtain ⟨hne, rfl⟩ := List.mem_getLast?_eq_getLast h
  simpa using List.rdropWhile_last_not isLineEnd _ hne

/-- Without the line ends behind it, a text asks for the same, or it has the same error. -/
theorem ofText_trimLineEnds (h : text = "" ∨ ∃ c ∈ text.toList, c ≠ '\n' ∧ c ≠ '\r') :
    Query.ofText (trimLineEnds text) =
      (Query.ofText text).mapError (.endAt (.behind (trimLineEnds text))) := by
  rcases h with rfl | ⟨c, hc, hn⟩
  · rfl
  · have hne : trimLineEnds text ≠ "" := fun hempty => by
      simpa [hn] using isLineEnd_iff.1 (trimLineEnds_eq_empty_iff.1 hempty c hc)
    have hb : ∀ c ∈ text.toList.rtakeWhile isLineEnd, isBlank c = true :=
      fun c hc => isBlank_of_isLineEnd (List.mem_rtakeWhile_imp hc)
    have happend := ofText_append_blanks hb hne
    rwa [trimLineEnds_append] at happend

end LineEnds

theorem check_none (text : String) : check text none =
    match Query.ofText (trimLineEnds text) with
    | .error e => .error (.parse e)
    | .ok q => .ok (.document q.document.toJson) := by
  rw [check, Parser.parse_plain]
  cases Query.ofText (trimLineEnds text) <;> rfl

theorem check_some {file : Contents} {s : Settings} (h : Settings.load file = .ok s)
    (text : String) : check text (some file) =
      match Query.ofText (trimLineEnds text) with
      | .error e => .error (.parse e)
      | .ok q => .ok (.document ((Profile.ofSettings s).answer q).toJson) := by
  rw [check, h]
  rcases hq : Query.ofText (trimLineEnds text) with e | q
  · have herror : (Profile.ofSettings s).select (some (trimLineEnds text)) = .error e :=
      (Profile.select_eq_error_iff _ e).2 hq
    simp [herror, valueOf]
  · have hanswer := Profile.outcome_eq_answer (Profile.neverPanics_ofSettings s) q
    simp [Profile.select_eq hq, hanswer, valueOf]

/-- The ways to check a text differ only in what they show of a query. -/
theorem CheckOptions.exists_checked_eq {o : CheckOptions} {file : String → Contents}
    (h : o.syntaxOnly = true ∨ o.Loads file) : ∃ shown : Query → Checked, ∀ text,
      o.checked file text =
        match Query.ofText (trimLineEnds text) with
        | .error e => .error (.parse e)
        | .ok q => .ok (shown q) := by
  unfold checked
  by_cases hs : o.syntaxOnly = true
  · exact ⟨fun _ => .valid, fun text => if_pos hs⟩
  · have hloads := h.resolve_left hs
    simp only [if_neg hs]
    rcases hc : o.config with _ | path
    · exact ⟨_, check_none⟩
    · obtain ⟨s, hload⟩ := hloads path hc
      exact ⟨_, check_some hload⟩

theorem runCheck_eq {o : CheckOptions} {input : Contents} {text : String}
    (h : textOf o.text input = .ok text) (file : String → Contents) :
    runCheck o input file =
      (o.checked file text).map fun checked => checked.toText o.pretty ++ "\n" := by
  rw [runCheck, h]
  simp only [bind, Except.bind]
  cases o.checked file text <;> rfl

/-- All ways to check a text accept it or all refuse it, with the error that the parser has for it,
as long as a configuration that is wanted loads. To ask only for the syntax is to leave the
configuration alone, whatever there is in the file. Otherwise one that does not load is the error,
whatever the text is. With one that says nothing, the selection is the document without a
configuration, with an empty object in the place of the `null` of each absent part. -/
theorem check_modes_agree (file : String → Contents) (text : String) :
    (∀ o input, textOf o.text input = .ok text → runCheck o input file =
      (o.checked file text).map fun checked => checked.toText o.pretty ++ "\n") ∧
    ((∃ e, Query.ofText (trimLineEnds text) = .error e ∧
        ∀ o : CheckOptions, o.syntaxOnly = true ∨ o.Loads file →
          o.checked file text = .error (.parse e)) ∨
      ∃ q, Query.ofText (trimLineEnds text) = .ok q ∧
        ∀ o : CheckOptions, o.syntaxOnly = true ∨ o.Loads file →
          ∃ checked, o.checked file text = .ok checked) ∧
    (∀ (o : CheckOptions) config others, o.syntaxOnly = true →
      { o with config := config }.checked others text = o.checked file text) ∧
    (∀ (o : CheckOptions) path e, o.syntaxOnly = false → o.config = some path →
      Settings.load (file path) = .error e → o.checked file text = .error (.settings e)) ∧
    ∀ (o : CheckOptions) path s q, o.syntaxOnly = false → o.config = some path →
      Settings.load (file path) = .ok s → s.isEmpty = true →
      Query.ofText (trimLineEnds text) = .ok q → ∃ filter order,
        { o with config := none }.checked file text =
          .ok (.document (.obj [("where", filter), ("orderBy", order)])) ∧
        (filter = .null ↔ q.filter = none) ∧ (order = .null ↔ q.order = none) ∧
        o.checked file text = .ok (.document
          (.obj [("where", filter.orEmpty), ("orderBy", order.orEmpty)])) := by
  refine ⟨fun o input ht => runCheck_eq ht file, ?_, fun o config others hs => ?_,
    fun o path e hs hc he => ?_, fun o path s q hs hc hload hempty hq => ?_⟩
  · rcases hq : Query.ofText (trimLineEnds text) with e | q
    · refine .inl ⟨e, rfl, fun o ho => ?_⟩
      obtain ⟨shown, hshown⟩ := CheckOptions.exists_checked_eq ho
      rw [hshown, hq]
    · refine .inr ⟨q, rfl, fun o ho => ?_⟩
      obtain ⟨shown, hshown⟩ := CheckOptions.exists_checked_eq ho
      exact ⟨shown q, by rw [hshown, hq]⟩
  · simp [CheckOptions.checked, hs]
  · simp [CheckOptions.checked, hs, hc, check, he]
  · refine ⟨q.document.filter.getD .null, (q.document.order.map Direction.toJson).getD .null,
      ?_, ?_, ?_, ?_⟩
    · simp only [CheckOptions.checked, hs, Option.map_none, check_none, hq]
      rfl
    · rw [getD_null_eq_null_iff q.filter_document_ne_null, Query.document, Option.map_eq_none_iff]
    · rw [getD_null_eq_null_iff q.order_document_ne_null, Query.document, Option.map_eq_none_iff,
        Option.map_eq_none_iff]
    · simp only [CheckOptions.checked, hs, hc, Option.map_some, check_some hload, hq,
        Profile.answer_ofSettings_of_isEmpty hempty, Selection.toJson,
        Clause.value_ofOption_empty q.filter_document_ne_null,
        Clause.value_ofOption_empty q.order_document_ne_null]
      rfl

theorem check_modes_agree_of_empty_file : ∃ q order, Query.ofText "ORDER BY a" = .ok q ∧
    (CheckOptions.mk none none false false).checked (fun _ => .ok "".toUTF8) "ORDER BY a\n" =
      .ok (.document (.obj [("where", .null), ("orderBy", order)])) ∧
    (CheckOptions.mk none (some "empty.toml") false false).checked (fun _ => .ok "".toUTF8)
      "ORDER BY a\n" = .ok (.document (.obj [("where", .obj []), ("orderBy", order.orEmpty)])) ∧
    (CheckOptions.mk none (some "absent.toml") false true).checked (fun _ => .error .notFound)
      "ORDER BY a\n" = .ok .valid ∧
    (CheckOptions.mk none (some "absent.toml") false false).checked (fun _ => .error .notFound)
      "ORDER BY a\n" = .error (.settings (.unreadable .notFound)) := by
  have hread : Sentence.ofText "ORDER BY a" = .ok (.order (.one ⟨"a", none⟩)) := by
    refine Stage.read_eq_ok_of_passes (.cons rfl nofun (.cons rfl nofun (.cons rfl nofun
      (.nil _)))) ?_ rfl rfl
    nofun
  have h := (ofText_eq_ok_iff_sentence (by decide)).2 ⟨_, hread, rfl⟩
  have htrim : trimLineEnds "ORDER BY a\n" = "ORDER BY a" := rfl
  have hvalid : validate "ORDER BY a\n" = .ok .valid := by
    rw [validate, htrim, h]
  obtain ⟨-, -, hignored, -, hempty⟩ := check_modes_agree (fun _ => .ok "".toUTF8) "ORDER BY a\n"
  obtain ⟨-, -, -, hfailed, -⟩ := check_modes_agree (fun _ => .error .notFound) "ORDER BY a\n"
  obtain ⟨filter, order, hwithout, hfilter, -, hwith⟩ :=
    hempty ⟨none, some "empty.toml", false, false⟩ _ .empty _ rfl rfl rfl rfl (htrim ▸ h)
  obtain rfl := hfilter.2 rfl
  have hsyntax := hignored ⟨none, none, false, true⟩ (some "absent.toml")
    (fun _ => .error .notFound) rfl
  exact ⟨_, order, h, hwithout, hwith, hsyntax.trans hvalid, hfailed _ _ _ rfl rfl rfl⟩

/-- Cutting off the line ends behind a text changes nothing but a text of line ends alone. If there
is something else in the text, or nothing at all, then checking it brings the document that parsing
it as it was given brings, and otherwise the same error, which at the end of the input has the place
of the end of the shorter text. A text of line ends alone is checked as an empty one, and parsing it
fails. -/
theorem check_trimmed (text : String) :
    (∃ ends, text = trimLineEnds text ++ String.ofList ends ∧ (∀ c ∈ ends, c = '\n' ∨ c = '\r') ∧
      ∀ c ∈ (trimLineEnds text).toList.getLast?, c ≠ '\n' ∧ c ≠ '\r') ∧
    ((text = "" ∨ ∃ c ∈ text.toList, c ≠ '\n' ∧ c ≠ '\r') →
      (∀ checked, check text none = .ok checked ↔
        ∃ d, Parser.plain.parse text = .ok (.done d) ∧ checked = .document d.toJson) ∧
      ∀ e, check text none = .error e ↔ ∃ f, Parser.plain.parse text = .error f ∧
        e = .parse (f.endAt (.behind (trimLineEnds text)))) ∧
    (text ≠ "" → (∀ c ∈ text.toList, c = '\n' ∨ c = '\r') →
      check text none = .ok (.document (Document.toJson ⟨none, none⟩)) ∧
      Parser.plain.parse text =
        .error (.grammatical ⟨.behind text, .filterOrOrder, .endOfInput⟩)) := by
  refine ⟨⟨_, (trimLineEnds_append text).symm, fun c hc => ?_, fun c hc => ?_⟩, fun h => ?_,
    fun hne hends => ?_⟩
  · exact isLineEnd_iff.1 (List.mem_rtakeWhile_imp hc)
  · simpa [isLineEnd] using not_isLineEnd_getLast?_trimLineEnds hc
  · rw [check_none, Parser.parse_plain, ofText_trimLineEnds h]
    cases Query.ofText text <;> simp [Except.mapError, Except.map, Rendering.done, eq_comm]
  · have hall : ∀ c ∈ text.toList, isLineEnd c = true := fun c hc => isLineEnd_iff.2 (hends c hc)
    have hb : ∀ c ∈ text.toList, isBlank c = true := fun c hc => isBlank_of_isLineEnd (hall c hc)
    rw [check_none, Parser.parse_plain, trimLineEnds_eq_empty_iff.2 hall, ofText_of_blanks hne hb]
    exact ⟨rfl, rfl⟩

theorem check_trimmed_of_line_ends :
    Parser.plain.parse "a =\r\n" = .error (.grammatical ⟨⟨5, 2, 1⟩, .value, .endOfInput⟩) ∧
    check "a =\r\n" none = .error (.parse (.grammatical ⟨⟨3, 1, 4⟩, .value, .endOfInput⟩)) ∧
    check "\n\r" none = .ok (.document (.obj [("where", .null), ("orderBy", .null)])) := by
  have h : Query.ofText "a =\r\n" =
      .error (.grammatical ⟨⟨5, 2, 1⟩, .value, .endOfInput⟩) := by
    have hpasses : (Cursor.ofText "a =\r\n").Passes _ ⟨['\r', '\n'], ⟨3, 1, 4⟩⟩ :=
      .cons rfl nofun (.cons rfl nofun (.nil _))
    have hend : Cursor.next ⟨['\r', '\n'], ⟨3, 1, 4⟩⟩ = (.ok _, _) := rfl
    refine ofText_eq_error.2 ⟨by decide, ?_⟩
    rw [Stage.read_of_passes hpasses rfl, Stage.read_of_next_ok _ hend]
    rfl
  have hparse : Parser.plain.parse "a =\r\n" = _ := congrArg (Except.map Parser.plain.render) h
  obtain ⟨-, htrimmed, -⟩ := check_trimmed "a =\r\n"
  obtain ⟨-, -, hends⟩ := check_trimmed "\n\r"
  exact ⟨hparse, ((htrimmed (.inr ⟨'a', by simp, by decide⟩)).2 _).2 ⟨_, hparse, rfl⟩,
    (hends (by decide) (by simp)).1⟩

end Command

end FilterQuery
