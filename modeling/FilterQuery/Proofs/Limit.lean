import FilterQuery.Proofs.Cutting
import FilterQuery.Proofs.Lexicon
import FilterQuery.Proofs.Procedures

/-!
# The limit of nesting

A text is full if an operand is expected behind it while 64 groups are open. The error that asks for
fewer groups is that of a parenthesis behind a full text (`exists_isFull_of_fewerGroups`), and
behind a full text every parenthesis has it, whatever follows (`ofText_of_isFull`). Reading by
descent has the same answers, since its counter is always the number of groups that are open
(`nesting_limit_exact`).
-/

namespace FilterQuery

/-- Behind the text an operand is expected, and 64 groups are open. -/
def IsFull (text : String) : Prop :=
  ∃ ts site, HasTokens text ts ∧ Stage.walk .start ts = .ok (.operand site) ∧
    ((Nesting.between 0).behind ts).groups = 64

theorem Expectation.message_eq_iff {e : Expectation} :
    e.message = "at most 64 nested groups" ↔ e = .fewerGroups := by
  cases e <;> decide +kernel

/-- Only the symbol is read as a parenthesis. -/
theorem Lexical.eq_openParen {x : List Char} (h : Lexical x .openParen) : x = ['('] := by
  cases h with
  | word h =>
    cases h with
    | reserved _ _ h _ =>
      have hall : ∀ entry ∈ Token.reserved, entry.2 ≠ .openParen := by decide
      exact absurd rfl (hall _ h)
  | symbol h =>
    have hall : ∀ entry ∈ symbols, entry.2 = .openParen → entry.1 = ['('] := by decide
    exact hall _ h rfl

namespace Stage

theorem finish_ne_fewerGroups (stage : Stage) : stage.finish ≠ .error .fewerGroups := by
  cases stage with
  | connective site c => rcases site with ⟨frame, _ | ⟨next, outer⟩⟩ <;> nofun
  | _ => nofun

theorem expected_ne_fewerGroups (stage : Stage) : stage.expected ≠ .fewerGroups := by
  cases stage with
  | connective site c =>
    rw [expected]
    split <;> nofun
  | _ => nofun

theorem openGroup_eq_fewerGroups {site : Site} (h : openGroup site = .error .fewerGroups) :
    site.depth = maxNesting := by
  rw [openGroup] at h
  split at h
  · assumption
  · cases h

/-- Only a parenthesis in place of an operand asks for fewer groups. -/
theorem step_eq_fewerGroups {stage : Stage} {t : Token} (h : stage.step t = .error .fewerGroups) :
    ∃ site, stage = .operand site ∧ site.depth = maxNesting ∧ t = .openParen := by
  unfold step at h
  split at h
  case h_3 => exact absurd (openGroup_eq_fewerGroups h) (by decide)
  case h_5 site => exact ⟨site, rfl, openGroup_eq_fewerGroups h, rfl⟩
  all_goals first
    | exact absurd (Except.error.inj h) (expected_ne_fewerGroups _)
    | cases h

theorem step_of_take_eq_error {stage : Stage} {lexeme : Lexeme} {e : SyntaxError}
    (h : stage.take lexeme = .error e) : stage.step lexeme.token = .error e.expected := by
  unfold take at h
  split at h <;> cases h
  assumption

theorem groups_of_walk {ts : List Token} {site : Site}
    (h : walk .start ts = .ok (.operand site)) :
    ((Nesting.between 0).behind ts).groups = site.depth :=
  (congrArg Nesting.groups (nesting_walk h (Nat.zero_le _)).1).symm

end Stage

/-- A text with its tokens is passed in front of anything that no token is read on into. -/
theorem HasTokens.exists_passes {front back : String} {ts : List Token} (h : HasTokens front ts)
    (hback : ∀ c ∈ back.toList.head?, ∀ t : Token, t.gluesTo c = false) :
    ∃ lexemes blanks p, lexemes.map Lexeme.token = ts ∧ (∀ x ∈ blanks, isBlank x = true) ∧
      p.advance blanks = Position.start.advance front.toList ∧
      (Cursor.ofText (front ++ back)).Passes lexemes ⟨blanks ++ back.toList, p⟩ := by
  obtain ⟨_, hl, hts⟩ := h
  obtain ⟨words, d, hp, hb, rfl⟩ := exists_passes_of_tokenize hl
  rw [List.map_append] at hts
  obtain ⟨passed, hrest, hposition, -, hagain⟩ := hp.again
  have hrest : front.toList = passed ++ d.rest := hrest
  have hposition : d.position = Position.start.advance passed := hposition
  have hng : ¬ Glued words front back := by
    rintro ⟨l, -, -, c, hc, hglues⟩
    rw [hback c hc l.token] at hglues
    cases hglues
  have hpass := hagain _ (not_gluesTo_of_not_glued hp hb hng)
  have hstart : Cursor.ofText (front ++ back) = ⟨passed ++ (d.rest ++ back.toList), .start⟩ := by
    simp [Cursor.ofText, hrest]
  refine ⟨words, d.rest, d.position, List.append_inj_left' hts rfl, hb, ?_, hstart ▸ hpass⟩
  rw [hposition, hrest, Position.advance_append]

/-- What is passed, with the blanks behind it, has the tokens of the lexemes. -/
theorem Cursor.Passes.exists_hasTokens {text : String} {lexemes : List Lexeme} {d : Cursor}
    (hp : (Cursor.ofText text).Passes lexemes d) {blanks rest : List Char}
    (hd : d.rest = blanks ++ rest) (hb : ∀ x ∈ blanks, isBlank x = true) :
    ∃ front, text = front ++ String.ofList rest ∧ HasTokens front (lexemes.map Lexeme.token) := by
  obtain ⟨passed, hrest, -, -, hagain⟩ := hp.again
  have hrest : text.toList = passed ++ d.rest := hrest
  have hpass := hagain blanks fun l _ x hx =>
    not_gluesTo_of_isBlank (hb x (List.mem_of_mem_head? hx)) l.token
  have hfront : Cursor.ofText (String.ofList (passed ++ blanks)) = ⟨passed ++ blanks, .start⟩ := by
    simp [Cursor.ofText]
  refine ⟨String.ofList (passed ++ blanks), ?_, _, tokenize_of_passes (hfront ▸ hpass) hb, by simp⟩
  rw [← String.toList_inj, hrest, hd]
  simp

/-- A parenthesis behind a full text is an error, whatever stands behind it. -/
theorem ofText_of_isFull {front : String} (h : IsFull front) (behind : String) :
    Query.ofText (front ++ "(" ++ behind) = .error (.grammatical
      ⟨Position.start.advance front.toList, .fewerGroups, .openParen⟩) := by
  obtain ⟨ts, site, htokens, hw, hg⟩ := h
  have hparen : ("(" ++ behind).toList = ['('] ++ behind.toList := String.toList_append
  have hback : ∀ c ∈ ("(" ++ behind).toList.head?, ∀ t : Token, t.gluesTo c = false := by
    rw [hparen]
    intro c hc
    obtain rfl : '(' = c := Option.some.inj hc
    exact not_gluesTo (by decide) (by decide)
  obtain ⟨lexemes, blanks, p, rfl, hb, hp, hpass⟩ := htokens.exists_passes hback
  rw [hparen, ← String.append_assoc] at hpass
  have hne : Token.openParen ≠ .endOfInput := by decide
  have hn := @Cursor.next_of_scan blanks ['('] behind.toList .openParen p hb rfl hne
  have hdepth : site.depth = maxNesting := (Stage.groups_of_walk hw).symm.trans hg
  have htake : (Stage.operand site).take ⟨.openParen, "(", p.advance blanks⟩ =
      .error ⟨Position.start.advance front.toList, .fewerGroups, .openParen⟩ := by
    rw [Stage.take, Stage.step, Stage.openGroup, if_pos hdepth, hp]
  exact ofText_eq_error.2 ⟨by simp, Stage.read_of_refused hpass hw hn hne htake⟩

theorem exists_isFull_of_fewerGroups {text : String} {e : SyntaxError}
    (h : Query.ofText text = .error (.grammatical e)) (he : e.expected = .fewerGroups) :
    ∃ front rest, text = front ++ "(" ++ rest ∧ IsFull front := by
  obtain ⟨-, hread⟩ := ofText_eq_error.1 h
  obtain ⟨lexemes, d, stage, lexeme, after, hp, hw, hn, hlast⟩ := Stage.read_eq_grammatical hread
  split at hlast
  · have hfinish := (Stage.close_eq_error hlast).1
    rw [he] at hfinish
    exact absurd hfinish (Stage.finish_ne_fewerGroups stage)
  rename_i ht
  have hstep := Stage.step_of_take_eq_error hlast
  rw [he] at hstep
  obtain ⟨site, rfl, hdepth, hopen⟩ := Stage.step_eq_fewerGroups hstep
  obtain ⟨blanks, word, hd, hb, -, hs, -, -⟩ := Cursor.next_eq_ok hn ht
  rw [hopen] at hs
  obtain rfl := (lexical_of_scan hs nofun).eq_openParen
  obtain ⟨front, htext, htokens⟩ := hp.exists_hasTokens hd hb
  refine ⟨front, String.ofList after.rest, ?_, _, site, htokens, hw,
    (Stage.groups_of_walk hw).trans hdepth⟩
  rw [htext, String.ofList_append, String.append_assoc]

/-- A text asks for fewer groups exactly if a parenthesis stands in it behind a full text. Behind a
full text a parenthesis is the error, at its place and whatever follows it. An operand that is
complete leaves the groups that are open as they are, be it a group or a list of values. With room
for 65 calls of the procedure of disjunctions inside each other, or for more, a descent has the
answer of every text, and at every call and return the first tokens of the text have been taken, the
counter is the number of groups opened and not yet closed in them, at most 64, and at most 65 calls
are inside each other. -/
theorem nesting_limit_exact (text : String) (hne : text ≠ "") :
    ((∃ e, Query.ofText text = .error (.grammatical e) ∧
        e.expected.message = "at most 64 nested groups") ↔
      ∃ front rest, text = front ++ "(" ++ rest ∧ IsFull front) ∧
    (∀ front, IsFull front → ∀ behind, Query.ofText (front ++ "(" ++ behind) =
      .error (.grammatical ⟨Position.start.advance front.toList, .fewerGroups, .openParen⟩)) ∧
    (∀ groups (o : Operand),
      (Nesting.between groups).behind o.tokens = Nesting.between groups) ∧
    ∀ room, 65 ≤ room →
      (Descent.ofText room text).1.map Sentence.query = (Query.ofText text).mapError .failed ∧
      ∀ v ∈ (Descent.ofText room text).2,
        v.taken <+: (Cursor.ofText text).deliver.lexemes.map Lexeme.token ∧
          v.depth = ((Nesting.between 0).behind v.taken).groups ∧ v.depth ≤ 64 ∧
          v.activations ≤ 65 := by
  refine ⟨⟨?_, ?_⟩, fun front h => ofText_of_isFull h, Nesting.behind_operand,
    fun room hroom => ⟨?_, fun v hv => ?_⟩⟩
  · rintro ⟨e, h, he⟩
    exact exists_isFull_of_fewerGroups h (Expectation.message_eq_iff.1 he)
  · rintro ⟨front, rest, rfl, h⟩
    exact ⟨_, ofText_of_isFull h rest, Expectation.message_eq_iff.2 rfl⟩
  · rw [(Descent.ofText_eq hroom text).1, Query.ofText, if_neg hne]
    cases Sentence.ofText text <;> rfl
  · have hcounted := (Descent.ofText_eq hroom text).2 v hv
    exact ⟨hcounted.taken, hcounted.depth_eq, hcounted.depth_le, hcounted.activations_le⟩

theorem hasTokens_openParens : ∀ n,
    HasTokens (String.ofList (List.replicate n '(')) (List.replicate n .openParen)
  | 0 => hasTokens_nil (by simp)
  | n + 1 => by
    rw [List.replicate_succ, List.replicate_succ, ← List.singleton_append, String.ofList_append]
    refine hasTokens_openParen.append (hasTokens_openParens n) fun t ht c _ => ?_
    rw [← Option.some.inj ht]
    rfl

-- the counters reach their limits
theorem nesting_limit_exact_of_parens :
    let text := String.ofList (List.replicate 64 '(') ++ "(" ++ "#"
    Query.ofText text = .error (.grammatical ⟨⟨64, 1, 65⟩, .fewerGroups, .openParen⟩) ∧
      (Descent.ofText 65 text).1.map Sentence.query =
        .error (.failed (.grammatical ⟨⟨64, 1, 65⟩, .fewerGroups, .openParen⟩)) ∧
      ∃ v ∈ (Descent.ofText 65 text).2, v.depth = 64 ∧ v.activations = 65 ∧
        ((Nesting.between 0).behind v.taken).groups = 64 := by
  intro text
  have hfull : IsFull (String.ofList (List.replicate 64 '(')) :=
    ⟨_, _, hasTokens_openParens 64, rfl, by decide +kernel⟩
  have hplace : Position.start.advance (String.ofList (List.replicate 64 '(')).toList =
      ⟨64, 1, 65⟩ := by
    rw [String.toList_ofList]
    rfl
  obtain ⟨-, hbehind, -, hdescent⟩ := nesting_limit_exact text (by simp [text])
  obtain ⟨hanswer, hvisits⟩ := hdescent 65 le_rfl
  have herror := hbehind _ hfull "#"
  rw [hplace] at herror
  have hdeepest : ∃ v ∈ (Descent.ofText 65 text).2, v.depth = 64 ∧ v.activations = 65 := by
    decide +kernel
  obtain ⟨v, hv, hdepth, hactivations⟩ := hdeepest
  refine ⟨herror, ?_, v, hv, hdepth, hactivations, (hvisits v hv).2.1.symm.trans hdepth⟩
  rw [hanswer, herror]
  rfl

end FilterQuery
