import FilterQuery.Proofs.Descent

/-!
# What the procedures of a descent read

Each procedure leads from a stage to the stages behind the phrase that it reads, and fails where the
stage refuses the token that is looked at. With room for 65 calls of the procedure of disjunctions
inside each other the counter of open groups stops a descent before the room does
(`reads_disjunction`), so such a descent has the answer of the reading by stages, and all its calls
and returns are well counted (`ofText_eq`).
-/

namespace FilterQuery

namespace Stage

variable {site : Site} {name : String} {t : Token}

theorem refuses_operand (hname : ∀ name, t ≠ .identifier name) (hopen : t ≠ .openParen) :
    (operand site).Refuses t .operand := by
  cases t with
  | identifier name => exact absurd rfl (hname name)
  | openParen => exact absurd rfl hopen
  | _ => rfl

theorem refuses_predicate (hop : ∀ op, t ≠ .comparison op) (hnot : t ≠ .keyword .not)
    (hin : t ≠ .keyword .inList) : (predicate site name).Refuses t .predicate := by
  cases t with
  | comparison op => exact absurd rfl (hop op)
  | keyword word =>
    cases word with
    | not => exact absurd rfl hnot
    | inList => exact absurd rfl hin
    | _ => rfl
  | _ => rfl

theorem refuses_inList (hin : t ≠ .keyword .inList) :
    (inList site name).Refuses t .inList := by
  cases t with
  | keyword word =>
    cases word with
    | inList => exact absurd rfl hin
    | _ => rfl
  | _ => rfl

theorem refuses_value {op : Comparison} (hv : ∀ v, t ≠ .literal v) :
    (value site name op).Refuses t .value := by
  cases t with
  | literal v => exact absurd rfl (hv v)
  | _ => rfl

theorem refuses_list {negated : Bool} (hopen : t ≠ .openParen) :
    (list site name negated).Refuses t .listOpening := by
  cases t with
  | openParen => exact absurd rfl hopen
  | _ => rfl

theorem refuses_element {negated : Bool} {init : Option (Run Literal)}
    (hv : ∀ v, t ≠ .literal v) : (element site name negated init).Refuses t .value := by
  cases t with
  | literal v => exact absurd rfl (hv v)
  | _ => rfl

theorem refuses_separator {negated : Bool} {values : Run Literal} (hcomma : t ≠ .comma)
    (hclose : t ≠ .closeParen) :
    (separator site name negated values).Refuses t .listSeparator := by
  cases t with
  | comma => exact absurd rfl hcomma
  | closeParen => exact absurd rfl hclose
  | _ => rfl

theorem refuses_connective_of_cons {inner frame : Frame} {outer : List Frame} {c : Conjunction}
    (hand : t ≠ .keyword .and) (hor : t ≠ .keyword .or) (hclose : t ≠ .closeParen) :
    (connective ⟨inner, frame :: outer⟩ c).Refuses t .groupClosing := by
  cases t with
  | keyword word =>
    cases word with
    | and => exact absurd rfl hand
    | or => exact absurd rfl hor
    | _ => rfl
  | closeParen => exact absurd rfl hclose
  | _ => rfl

theorem refuses_connective_of_nil {frame : Frame} {c : Conjunction} (hand : t ≠ .keyword .and)
    (hor : t ≠ .keyword .or) (horder : t ≠ .keyword .order) (hend : t ≠ .endOfInput) :
    (connective ⟨frame, []⟩ c).Refuses t .connective := by
  rw [Refuses, if_neg hend]
  cases t with
  | keyword word =>
    cases word with
    | and => exact absurd rfl hand
    | or => exact absurd rfl hor
    | order => exact absurd rfl horder
    | _ => rfl
  | _ => rfl

theorem refuses_byKeys {filter : Option Disjunction} (hby : t ≠ .keyword .byKeys) :
    (byKeys filter).Refuses t .byKeys := by
  cases t with
  | keyword word =>
    cases word with
    | byKeys => exact absurd rfl hby
    | _ => rfl
  | _ => rfl

theorem refuses_sortKey {filter : Option Disjunction} {init : Option (Run SortTerm)}
    (hname : ∀ name, t ≠ .identifier name) : (sortKey filter init).Refuses t .sortKey := by
  cases t with
  | identifier name => exact absurd rfl (hname name)
  | _ => rfl

theorem refuses_sortEnd {filter : Option Disjunction} {init : Option (Run SortTerm)}
    {last : SortTerm} (hcomma : t ≠ .comma)
    (hdirection : last.direction = none → t ≠ .keyword .asc ∧ t ≠ .keyword .desc)
    (hend : t ≠ .endOfInput) : (sortEnd filter init last).Refuses t .sortSeparator := by
  obtain ⟨name, direction⟩ := last
  rw [Refuses, if_neg hend]
  cases t with
  | comma => exact absurd rfl hcomma
  | keyword word =>
    rcases direction with _ | direction
    · cases word with
      | asc => exact absurd rfl (hdirection rfl).1
      | desc => exact absurd rfl (hdirection rfl).2
      | _ => rfl
    · cases word <;> rfl
  | _ => rcases direction with _ | direction <;> rfl

end Stage

namespace Descent

variable {α β : Type} {text : String} {stage next : Stage}
  {depth activations : Nat} {r : Reader}

theorem reads_literal {next : Literal → Stage} (hs : ∀ v, stage.step (.literal v) = .ok (next v))
    (hr : ∀ t, (∀ v, t ≠ .literal v) → stage.Refuses t .value) :
    Reads text literal stage depth activations fun v s _ => s = next v := by
  intro r h
  refine Meets.get ?_
  split <;> rename_i ht
  · rename_i v
    refine Meets.bind (meets_advance h (ht ▸ hs v) fun r₁ h₁ hl => ?_)
    exact ⟨_, rfl, h₁, hl.le⟩
  · exact meets_refuse h (hr _ ht)

theorem reads_list (site : Site) (name : String) (negated : Bool) :
    Reads text list (.list site name negated) depth activations
      fun values s _ => s = Stage.behind site (.test (.member name negated values)) := by
  have hvalues : Reads text (separated .comma Run.push literal) (.element site name negated none)
      depth activations fun values s t => s = .separator site name negated values ∧ t ≠ .comma := by
    refine reads_separated (fun init s => s = .element site name negated init)
      (fun values s _ => s = .separator site name negated values) ?_ ?_ rfl
    · rintro init _ rfl
      exact reads_literal (fun v => rfl) fun t => Stage.refuses_element
    · rintro values _ rfl
      exact ⟨_, rfl, rfl⟩
  intro r h
  refine Meets.bind (meets_expect h rfl Stage.refuses_list fun r₁ h₁ hl₁ => ?_)
  refine Meets.bind (hvalues.meets h₁ fun values next r₂ hnext h₂ hl₂ => ?_)
  obtain ⟨rfl, hcomma⟩ := hnext
  refine Meets.bind (meets_expect h₂ rfl (Stage.refuses_separator hcomma) fun r₃ h₃ hl₃ => ?_)
  exact ⟨_, rfl, h₃, by omega⟩

theorem reads_test (site : Site) (name : String) :
    Reads text (test name) (.predicate site name) depth activations
      fun t s _ => s = Stage.behind site (.test t) := by
  intro r h
  refine Meets.get ?_
  split
  · rename_i op ht
    refine Meets.bind (meets_advance h (by rw [ht]; rfl) fun r₁ h₁ hl₁ => ?_)
    refine Meets.bind ((reads_literal (fun v => rfl) fun t => Stage.refuses_value).meets h₁
      fun v next r₂ hv h₂ hl₂ => ?_)
    exact ⟨next, hv, h₂, by omega⟩
  · rename_i ht
    refine Meets.bind (meets_advance h (by rw [ht]; rfl) fun r₁ h₁ hl₁ => ?_)
    refine Meets.bind (meets_expect h₁ rfl Stage.refuses_inList fun r₂ h₂ hl₂ => ?_)
    refine Meets.bind ((reads_list site name true).meets h₂ fun values next r₃ hv h₃ hl₃ => ?_)
    exact ⟨next, hv, h₃, by omega⟩
  · rename_i hop hnot
    refine Meets.bind (meets_expect h rfl (Stage.refuses_predicate hop hnot) fun r₁ h₁ hl₁ => ?_)
    refine Meets.bind ((reads_list site name false).meets h₁ fun values next r₂ hv h₂ hl₂ => ?_)
    exact ⟨next, hv, h₂, by omega⟩

section Conditions

variable {group : Descent Disjunction} {outer : List Frame}

/-- The stages behind a disjunction inside `outer`. -/
def BehindDisjunction (outer : List Frame) (d : Disjunction) (s : Stage) (t : Token) : Prop :=
  (∃ frame c, s = .connective ⟨frame, outer⟩ c ∧ frame.close c = d) ∧ t ≠ .keyword .and ∧
    t ≠ .keyword .or

/-- What a descent into the groups around a site has to read. -/
def ReadsGroups (text : String) (group : Descent Disjunction) (outer : List Frame) : Prop :=
  outer.length ≠ maxNesting → ∀ frame : Frame, Reads text group (.operand ⟨.empty, frame :: outer⟩)
    (outer.length + 1) (outer.length + 1) (BehindDisjunction (frame :: outer))

theorem reads_operand (frame : Frame) (hgroup : ReadsGroups text group outer)
    (hle : outer.length ≤ maxNesting) :
    Reads text (operand group) (.operand ⟨frame, outer⟩) outer.length (outer.length + 1)
      fun o s _ => s = Stage.behind ⟨frame, outer⟩ o := by
  refine reads_recorded .operand ?_ rfl (by rintro o _ t rfl; rfl) (by
    simp only [maxNesting] at hle; omega)
  intro r h
  refine Meets.get ?_
  split
  · rename_i ht
    have hopen : Stage.step (.operand ⟨frame, outer⟩) r.current.token =
        Stage.openGroup ⟨frame, outer⟩ := by rw [ht]; rfl
    split <;> rename_i hd <;> rw [h.depth_eq] at hd
    · refine meets_refuse h ?_
      have hne : r.current.token ≠ .endOfInput := by rw [ht]; decide
      rw [Stage.Refuses, if_neg hne, hopen, Stage.openGroup, Site.depth, if_pos hd]
    · rw [Stage.openGroup, Site.depth, if_neg hd] at hopen
      have h₁ : ({ r with depth := r.depth + 1 } : Reader).At text (.operand ⟨frame, outer⟩)
          (outer.length + 1) (outer.length + 1) := h.setDepth (by rw [h.depth_eq])
      refine Meets.bind (p := set { r with depth := r.depth + 1 }) ?_
      refine Meets.bind (meets_advance h₁ hopen fun r₂ h₂ hl₂ => ?_)
      refine Meets.bind ((hgroup hd frame).meets h₂ fun d next r₃ hnext h₃ hl₃ => ?_)
      obtain ⟨⟨inner, c, rfl, rfl⟩, hand, hor⟩ := hnext
      refine Meets.bind (meets_expect h₃ rfl (Stage.refuses_connective_of_cons hand hor)
        fun r₄ h₄ hl₄ => ?_)
      refine ⟨_, rfl, h₄.setDepth (by rw [h₄.depth_eq, Nat.add_sub_cancel]), ?_⟩
      change r₄.left ≤ r.left
      change r₂.left < r.left at hl₂
      omega
  · rename_i name ht
    refine Meets.bind (meets_advance h (by rw [ht]; rfl) fun r₁ h₁ hl₁ => ?_)
    refine Meets.bind ((reads_test ⟨frame, outer⟩ name).meets h₁ fun t next r₂ hv h₂ hl₂ => ?_)
    exact ⟨next, hv, h₂, by omega⟩
  · rename_i hopen hname
    exact meets_refuse h (Stage.refuses_operand hname hopen)

theorem reads_conjunction (front : Option Disjunction) (hgroup : ReadsGroups text group outer)
    (hle : outer.length ≤ maxNesting) :
    Reads text (conjunction group) (.operand ⟨⟨front, none⟩, outer⟩) outer.length
      (outer.length + 1) fun c s t =>
        (∃ operands, s = .connective ⟨⟨front, operands⟩, outer⟩ c) ∧ t ≠ .keyword .and := by
  refine reads_recorded .conjunction ?_ rfl ?_ (by simp only [maxNesting] at hle; omega)
  · refine reads_separated (fun init s => s = .operand ⟨⟨front, init⟩, outer⟩)
      (fun c s _ => ∃ operands, s = .connective ⟨⟨front, operands⟩, outer⟩ c) ?_ ?_ rfl
    · rintro init _ rfl r h
      refine (reads_operand _ hgroup hle).meets h fun o next r' hnext hr hl => ?_
      exact ⟨next, ⟨init, hnext⟩, hr, hl⟩
    · rintro c _ ⟨operands, rfl⟩
      exact ⟨_, rfl, rfl⟩
  · rintro c _ t ⟨⟨operands, rfl⟩, -⟩
    rfl

theorem reads_disjunction : ∀ (room : Nat) (outer : List Frame), outer.length ≤ maxNesting →
    65 ≤ room + outer.length → Reads text (disjunction room) (.operand ⟨.empty, outer⟩)
      outer.length outer.length (BehindDisjunction outer)
  | 0, outer, hle, hroom => by
    simp only [maxNesting] at hle
    omega
  | room + 1, outer, hle, hroom => by
    have hgroup : ReadsGroups text (disjunction room) outer := fun hne frame =>
      reads_disjunction room (frame :: outer) (by rw [List.length_cons]; omega)
        (by rw [List.length_cons]; omega)
    have hruns : Reads text (recorded .disjunction
        (separated (.keyword .or) Disjunction.push (conjunction (disjunction room))))
        (.operand ⟨.empty, outer⟩) outer.length (outer.length + 1)
        fun d s t => ((∃ frame c, s = .connective ⟨frame, outer⟩ c ∧ frame.close c = d) ∧
          t ≠ .keyword .and) ∧ t ≠ .keyword .or := by
      refine reads_recorded .disjunction ?_ rfl ?_ (by simp only [maxNesting] at hle; omega)
      · refine reads_separated (fun init s => s = .operand ⟨⟨init, none⟩, outer⟩)
          (fun d s t =>
            (∃ frame c, s = .connective ⟨frame, outer⟩ c ∧ frame.close c = d) ∧
              t ≠ .keyword .and) ?_ ?_ rfl
        · rintro init _ rfl r h
          refine (reads_conjunction init hgroup hle).meets h fun c next r' hnext hr hl => ?_
          obtain ⟨⟨operands, rfl⟩, hand⟩ := hnext
          exact ⟨_, ⟨⟨_, c, rfl, rfl⟩, hand⟩, hr, hl⟩
        · rintro d _ ⟨⟨frame, c, rfl, rfl⟩, -⟩
          exact ⟨_, rfl, rfl⟩
      · rintro d _ t ⟨⟨⟨frame, c, rfl, rfl⟩, -⟩, -⟩
        rfl
    intro r h
    refine Meets.bind (p := modify fun r => { r with activations := r.activations + 1 }) ?_
    have h₁ : ({ r with activations := r.activations + 1 } : Reader).At text
        (.operand ⟨.empty, outer⟩) outer.length (outer.length + 1) :=
      h.setActivations (by rw [h.activations_eq])
    refine Meets.bind (hruns.meets h₁ fun d next r₂ hnext h₂ hl₂ => ?_)
    exact ⟨next, ⟨hnext.1.1, hnext.1.2, hnext.2⟩,
      h₂.setActivations (by rw [h₂.activations_eq, Nat.add_sub_cancel]), hl₂⟩

end Conditions

/-- The stages behind sort terms; where the last one has no direction, none follows. -/
def BehindTerms (filter : Option Disjunction) (terms : Run SortTerm) (s : Stage) (t : Token) :
    Prop :=
  ∃ init last, s = .sortEnd filter init last ∧ Run.push init last = terms ∧
    (last.direction = none → t ≠ .keyword .asc ∧ t ≠ .keyword .desc)

theorem reads_sortTerm (filter : Option Disjunction) (init : Option (Run SortTerm)) :
    Reads text sortTerm (.sortKey filter init) depth activations
      fun term => BehindTerms filter (.push init term) := by
  intro r h
  refine Meets.get ?_
  split
  · rename_i name ht
    refine Meets.bind (meets_advance h (by rw [ht]; rfl) fun r₁ h₁ hl₁ => ?_)
    refine Meets.get ?_
    split
    · rename_i hasc
      refine Meets.bind (meets_advance h₁ (by rw [hasc]; rfl) fun r₂ h₂ hl₂ => ?_)
      exact ⟨_, ⟨init, _, rfl, rfl, nofun⟩, h₂, by omega⟩
    · rename_i hdesc
      refine Meets.bind (meets_advance h₁ (by rw [hdesc]; rfl) fun r₂ h₂ hl₂ => ?_)
      exact ⟨_, ⟨init, _, rfl, rfl, nofun⟩, h₂, by omega⟩
    · rename_i hasc hdesc
      exact ⟨_, ⟨init, _, rfl, rfl, fun _ => ⟨hasc, hdesc⟩⟩, h₁, hl₁.le⟩
  · rename_i hname
    exact meets_refuse h (Stage.refuses_sortKey hname)

theorem meets_order {filter : Option Disjunction} {post : Run SortTerm → Reader → Prop}
    (h : r.At text stage depth activations) (ht : r.current.token = .keyword .order)
    (hs : stage.step (.keyword .order) = .ok (.byKeys filter))
    (hpost : ∀ terms next r', BehindTerms filter terms next r'.current.token →
      r'.current.token ≠ .comma → r'.At text next depth activations → post terms r') :
    Meets text order r post := by
  have hterms : Reads text (separated .comma Run.push sortTerm) (.sortKey filter none) depth
      activations fun terms s t => BehindTerms filter terms s t ∧ t ≠ .comma := by
    refine reads_separated (fun init s => s = .sortKey filter init) (BehindTerms filter) ?_ ?_ rfl
    · rintro init _ rfl
      exact reads_sortTerm filter init
    · rintro terms _ ⟨init, last, rfl, rfl, -⟩
      obtain ⟨name, _ | direction⟩ := last <;> exact ⟨_, rfl, rfl⟩
  refine Meets.bind (meets_advance h (by rw [ht, hs]) fun r₁ h₁ hl₁ => ?_)
  refine Meets.bind (meets_expect h₁ rfl Stage.refuses_byKeys fun r₂ h₂ hl₂ => ?_)
  exact hterms.meets h₂ fun terms next r₃ hnext h₃ hl₃ => hpost terms next r₃ hnext.1 hnext.2 h₃

/-- The outcome of a descent that has come to the end of the input. -/
def Ends (text : String) (s : Sentence) (r : Reader) : Prop :=
  Sentence.ofText text = .ok s ∧ ∀ v ∈ r.visits, v.IsCounted text

theorem meets_finish {e : Expectation} {s : Sentence} (h : r.At text stage depth activations)
    (hs : stage.finish = .ok s)
    (hr : r.current.token ≠ .endOfInput → stage.Refuses r.current.token e) :
    Meets text (finish e s) r (Ends text) := by
  refine Meets.get ?_
  split <;> rename_i ht
  · refine ⟨?_, h.visits⟩
    rw [← h.read, Stage.readAt, if_pos ht, Stage.close, hs]
    rfl
  · exact meets_refuse h (hr ht)

theorem meets_ending {d : Option Disjunction} (h : r.At text stage depth activations)
    (horder : stage.step (.keyword .order) = .ok (.byKeys d))
    (hnone : d = none → r.current.token ≠ .keyword .order →
      stage.Refuses r.current.token .filterOrOrder)
    (hsome : ∀ e, d = some e → stage.finish = .ok (.filter e) ∧
      (r.current.token ≠ .keyword .order → r.current.token ≠ .endOfInput →
        stage.Refuses r.current.token .connective)) :
    Meets text (ending d) r (Ends text) := by
  refine Meets.get ?_
  split <;> rename_i ht
  · refine Meets.bind (meets_order h ht horder fun terms next r₁ hnext hcomma h₁ => ?_)
    obtain ⟨init, last, rfl, rfl, hdirection⟩ := hnext
    exact meets_finish h₁ rfl (Stage.refuses_sortEnd hcomma hdirection)
  · cases d with
    | none => exact meets_refuse h (hnone rfl ht)
    | some e => exact meets_finish h (hsome e rfl).1 ((hsome e rfl).2 ht)

theorem meets_sentence {room : Nat} (hroom : 65 ≤ room) (h : r.At text .start 0 0) :
    Meets text (sentence room) r (Ends text) := by
  refine Meets.get ?_
  split <;> rename_i ht
  · refine meets_ending h rfl (fun _ hne => ?_) fun e he => by cases he
    rw [ht.resolve_left hne]
    rfl
  · obtain ⟨horder, hne⟩ := not_or.1 ht
    have hread : Stage.readAt (.operand .outermost) r.current r.after =
        Sentence.ofText text := by
      rw [← h.read, Stage.readAt, Stage.readAt, if_neg hne, if_neg hne, Stage.take, Stage.take,
        Stage.step_start horder]
    have h₁ : r.At text (.operand ⟨.empty, []⟩) 0 0 :=
      ⟨hread, h.tokens, h.nesting, h.groups_le, h.visits, h.depth_eq, h.activations_eq⟩
    refine Meets.bind ((reads_disjunction room [] (Nat.zero_le _) hroom).meets h₁
      fun d next r₂ hnext h₂ hl₂ => ?_)
    obtain ⟨⟨frame, c, rfl, rfl⟩, hand, hor⟩ := hnext
    refine meets_ending h₂ rfl (fun he => by cases he) ?_
    rintro _ ⟨⟩
    exact ⟨rfl, Stage.refuses_connective_of_nil hand hor⟩

/-- With room for 65 calls inside each other a descent is a reading, and its counters keep to the
limits all the way. -/
theorem ofText_eq {room : Nat} (hroom : 65 ≤ room) (text : String) :
    (ofText room text).1 = (Sentence.ofText text).mapError .failed ∧
      ∀ v ∈ (ofText room text).2, v.IsCounted text := by
  rw [ofText]
  rcases hn : (Cursor.ofText text).next with ⟨e | lexeme, after⟩
  · rw [Sentence.ofText, Stage.read_of_next_error .start hn]
    exact ⟨rfl, List.forall_mem_nil _⟩
  · have hread : Stage.start.readAt lexeme after = Sentence.ofText text :=
      (Stage.read_of_next_ok .start hn).symm
    have h := meets_sentence hroom (r := ⟨lexeme, after, 0, 0, [], []⟩)
      ⟨hread, Reader.map_token_deliver hn, rfl, Nat.zero_le _, List.forall_mem_nil _, rfl, rfl⟩
    rw [Meets] at h
    revert h
    dsimp only
    rcases (sentence room).run.run ⟨lexeme, after, 0, 0, [], []⟩ with ⟨(e | _) | s, r⟩
    · rintro ⟨hanswer, hvisits⟩
      rw [hanswer]
      exact ⟨rfl, hvisits⟩
    · exact False.elim
    · rintro ⟨hanswer, hvisits⟩
      rw [hanswer]
      exact ⟨rfl, hvisits⟩

-- the parentheses of a list are not counted
example : ((ofText 65 "(a IN (1))").2.map fun v => (v.procedure, v.returns, v.depth)) =
    [(.disjunction, false, 0), (.conjunction, false, 0), (.operand, false, 0),
      (.disjunction, false, 1), (.conjunction, false, 1), (.operand, false, 1),
      (.operand, true, 1), (.conjunction, true, 1), (.disjunction, true, 1),
      (.operand, true, 0), (.conjunction, true, 0), (.disjunction, true, 0)] := by
  decide +kernel

end Descent

end FilterQuery
