import FilterQuery.Proofs.Cutting
import FilterQuery.Proofs.Runs

/-!
# Redundant parentheses

A stretch of a sentence is some of the things that one of its runs joins, one behind the other.
In parentheses it becomes one thing, which comes to what the stretch comes to, so the run still
comes to the same (`Disjunction.Stretch.exists_enclosed`), and the sentence asks for the same query.
-/

namespace FilterQuery

/-- The tokens of a disjunction in three parts, the second of them a stretch: conjunctions that it
joins, operands that one of its conjunctions joins, or a stretch of a group that stands in it. -/
inductive Disjunction.Stretch : Disjunction → List Token → List Token → List Token → Prop
  | conjunctions {d : Disjunction} {xs ys zs : List Conjunction} (h : d.toList = xs ++ ys ++ zs)
    (hy : ys ≠ []) :
    Stretch d (tokensInFront xs) ([Token.keyword .or].intercalate (ys.map Conjunction.tokens))
      (tokensBehind zs)
  | operands {d : Disjunction} {cs cs' : List Conjunction} {c : Conjunction}
    (hc : d.toList = cs ++ c :: cs') {xs ys zs : List Operand} (h : c.toList = xs ++ ys ++ zs)
    (hy : ys ≠ []) :
    Stretch d (tokensInFront cs ++ Conjunction.tokensInFront xs)
      ([Token.keyword .and].intercalate (ys.map Operand.tokens))
      (Conjunction.tokensBehind zs ++ tokensBehind cs')
  | group {d e : Disjunction} {cs cs' : List Conjunction} {c : Conjunction} {os os' : List Operand}
    {before middle after : List Token} (hc : d.toList = cs ++ c :: cs')
    (ho : c.toList = os ++ .group e :: os') (h : Stretch e before middle after) :
    Stretch d (tokensInFront cs ++ Conjunction.tokensInFront os ++ .openParen :: before) middle
      (after ++ .closeParen :: (Conjunction.tokensBehind os' ++ tokensBehind cs'))

/-- The tokens of a sentence in three parts, the second of them a stretch of its disjunction. -/
inductive Sentence.Stretch : Sentence → List Token → List Token → List Token → Prop
  | filter {d : Disjunction} {before middle after : List Token}
    (h : d.Stretch before middle after) : Stretch (.filter d) before middle after
  | both {d : Disjunction} {terms : Run SortTerm} {before middle after : List Token}
    (h : d.Stretch before middle after) :
    Stretch (.both d terms) before middle (after ++ terms.orderTokens)

variable {before middle after : List Token}

theorem Disjunction.Stretch.ne_nil {d : Disjunction} (h : d.Stretch before middle after) :
    middle ≠ [] := by
  induction h with
  | conjunctions _ hy =>
    obtain ⟨g, rfl⟩ := Disjunction.exists_toList_eq hy
    obtain ⟨t, ts, hg, -⟩ := g.tokens_eq_cons
    rw [← g.tokens_eq, hg]
    exact List.cons_ne_nil t ts
  | operands _ _ hy =>
    obtain ⟨g, rfl⟩ := Conjunction.exists_toList_eq hy
    obtain ⟨t, ts, hg, -⟩ := g.tokens_eq_cons
    rw [← g.tokens_eq, hg]
    exact List.cons_ne_nil t ts
  | group _ _ _ ih => exact ih

theorem Sentence.Stretch.ne_nil {s : Sentence} (h : s.Stretch before middle after) :
    middle ≠ [] := by
  cases h with
  | filter h | both h => exact h.ne_nil

namespace Conjunction

variable {c : Conjunction} {xs ys zs : List Operand}

/-- One operand in place of some that come to the same. -/
theorem exists_of_joins (h : c.toList = xs ++ ys ++ zs) {o : Operand}
    (ho : Condition.Joins .and (ys.map Operand.condition) o.condition) : ∃ e : Conjunction,
      e.tokens = tokensInFront xs ++ o.tokens ++ tokensBehind zs ∧ e.condition = c.condition := by
  obtain ⟨e, he, hjoins⟩ := exists_between xs o zs
  have hc := c.joins
  rw [h, List.map_append, List.map_append] at hc
  exact ⟨e, he, (ho.stretch.1 hjoins).eq hc⟩

end Conjunction

namespace Disjunction

variable {d : Disjunction} {xs ys zs : List Conjunction}

/-- One conjunction in place of some that come to the same. -/
theorem exists_of_joins (h : d.toList = xs ++ ys ++ zs) {c : Conjunction}
    (hc : Condition.Joins .or (ys.map Conjunction.condition) c.condition) : ∃ e : Disjunction,
      e.tokens = tokensInFront xs ++ c.tokens ++ tokensBehind zs ∧ e.condition = d.condition := by
  obtain ⟨e, he, hjoins⟩ := exists_between xs c zs
  have hd := d.joins
  rw [h, List.map_append, List.map_append] at hd
  exact ⟨e, he, (hc.stretch.1 hjoins).eq hd⟩

theorem exists_of_condition_eq {cs cs' : List Conjunction} {c c' : Conjunction}
    (h : d.toList = cs ++ c :: cs') (hc : c'.condition = c.condition) : ∃ e : Disjunction,
      e.tokens = tokensInFront cs ++ c'.tokens ++ tokensBehind cs' ∧ e.condition = d.condition := by
  rw [← List.singleton_append, ← List.append_assoc] at h
  exact exists_of_joins h (hc ▸ .one _)

/-- A stretch can be put in parentheses, and what is asked for stays the same. -/
theorem Stretch.exists_enclosed (h : d.Stretch before middle after) :
    d.tokens = before ++ middle ++ after ∧
      ∃ e : Disjunction, e.tokens = before ++ .openParen :: (middle ++ .closeParen :: after) ∧
        e.condition = d.condition := by
  induction h with
  | @conjunctions d xs ys zs h hy =>
    refine ⟨tokens_of_append h hy, ?_⟩
    obtain ⟨g, rfl⟩ := exists_toList_eq hy
    obtain ⟨e, he, heq⟩ := @exists_of_joins d xs g.toList zs h (.one (.group g)) g.joins
    refine ⟨e, ?_, heq⟩
    rw [he, Conjunction.tokens, Operand.tokens, g.tokens_eq]
    simp
  | @operands d cs cs' c hc xs ys zs h hy =>
    refine ⟨by rw [tokens_of_append_cons hc, Conjunction.tokens_of_append h hy]; simp, ?_⟩
    obtain ⟨g, rfl⟩ := Conjunction.exists_toList_eq hy
    obtain ⟨f, hf, hfc⟩ :=
      @Conjunction.exists_of_joins c xs g.toList zs h (.group (.one g)) g.joins
    obtain ⟨e, he, heq⟩ := exists_of_condition_eq hc hfc
    refine ⟨e, ?_, heq⟩
    rw [he, hf, Operand.tokens, Disjunction.tokens, g.tokens_eq]
    simp
  | @group d g cs cs' c os os' before middle after hc ho _ ih =>
    obtain ⟨hg, g', hg', hgc⟩ := ih
    refine ⟨?_, ?_⟩
    · rw [tokens_of_append_cons hc, Conjunction.tokens_of_append_cons ho, Operand.tokens, hg]
      simp
    rw [← List.singleton_append, ← List.append_assoc] at ho
    have hjoins : Condition.Joins .and ([Operand.group g].map Operand.condition)
        (Operand.group g').condition := by
      rw [show (Operand.group g').condition = (Operand.group g).condition from hgc]
      exact .one _
    obtain ⟨f, hf, hfc⟩ := Conjunction.exists_of_joins ho hjoins
    obtain ⟨e, he, heq⟩ := exists_of_condition_eq hc hfc
    refine ⟨e, ?_, heq⟩
    rw [he, hf, Operand.tokens, hg']
    simp

end Disjunction

theorem Sentence.Stretch.exists_enclosed {s : Sentence} (h : s.Stretch before middle after) :
    s.tokens = before ++ middle ++ after ∧
      ∃ t : Sentence, t.tokens = before ++ .openParen :: (middle ++ .closeParen :: after) ∧
        t.query = s.query := by
  cases h with
  | filter h =>
    obtain ⟨hd, e, he, hq⟩ := h.exists_enclosed
    exact ⟨hd, .filter e, he, by rw [query, query, hq]⟩
  | @both d terms before middle after h =>
    obtain ⟨hd, e, he, hq⟩ := h.exists_enclosed
    exact ⟨by simp [tokens, hd], .both e terms, by simp [tokens, he], by rw [query, query, hq]⟩

/-- A stretch of the sentence of a text is a piece of that text. -/
theorem Sentence.Stretch.exists_cut {s : Sentence} {text : String}
    (h : s.Stretch before middle after) (hs : s.Derives text) :
    ∃ front mid back ls ms rs, Cut text front mid back ls ms rs ∧
      ls.map Lexeme.token = before ∧ ms.map Lexeme.token = middle := by
  obtain ⟨lexemes, hl, hlexemes⟩ := hs
  rw [h.exists_enclosed.1, List.append_assoc] at hlexemes
  obtain ⟨lms, rs, rfl, hlms, hrs⟩ := List.map_eq_append_iff.1 hlexemes
  obtain ⟨ls, ms, rfl, hls, hms⟩ := List.map_eq_append_iff.1 hlms
  have hms_ne : ms ≠ [] := by
    rintro rfl
    exact h.ne_nil hms.symm
  have hrs_ne : rs ≠ [] := by
    rintro rfl
    simp at hrs
  obtain ⟨front, mid, back, hcut⟩ := FilterQuery.exists_cut hl hms_ne hrs_ne
  exact ⟨front, mid, back, ls, ms, rs, hcut, hls, hms⟩

theorem Cut.hasTokens_enclosed {text front mid back : String} {ls ms rs : List Lexeme}
    (h : Cut text front mid back ls ms rs)
    (ht : HasTokens text (ls.map Lexeme.token ++ ms.map Lexeme.token ++ after)) :
    HasTokens (front ++ ("(" ++ mid ++ ")") ++ back)
      (ls.map Lexeme.token ++ .openParen :: (ms.map Lexeme.token ++ .closeParen :: after)) := by
  have hparen : ∀ c ∈ ("(" ++ mid ++ ")").toList.head?, ∀ u : Token, u.gluesTo c = false := by
    intro c hc
    rw [String.append_assoc, String.toList_append] at hc
    rw [← Option.some.inj hc]
    exact not_gluesTo (by decide) (by decide)
  obtain ⟨ts, hts, hnew⟩ := h.hasTokens_replace h.hasTokens.2.1.enclose hparen
    (u := .closeParen) (by simp [List.getLast?_cons]) fun _ => rfl
  obtain rfl : ts = after := by
    have hall : HasTokens text (ls.map Lexeme.token ++ ms.map Lexeme.token ++ ts) :=
      ⟨_, h.lexemes, by simp [hts]⟩
    exact List.append_cancel_left (hall.eq ht)
  simpa using hnew

/-- Every stretch of the sentence of an accepted text is a piece of that text. With that piece put
in parentheses the text has the tokens that one expects, and it asks for the same query if and only
if no more than 64 groups are open at a point. -/
theorem ofText_enclosed {text : String} {q : Query} {s : Sentence}
    {before middle after : List Token} (h : Query.ofText text = .ok q) (hs : s.Derives text)
    (hstretch : s.Stretch before middle after) :
    (∃ front mid back ls ms rs, Cut text front mid back ls ms rs ∧
      ls.map Lexeme.token = before ∧ ms.map Lexeme.token = middle) ∧
    ∀ front mid back ls ms rs, Cut text front mid back ls ms rs → ls.map Lexeme.token = before →
      ms.map Lexeme.token = middle →
        HasTokens (front ++ ("(" ++ mid ++ ")") ++ back)
          (before ++ .openParen :: (middle ++ .closeParen :: after)) ∧
        (Query.ofText (front ++ ("(" ++ mid ++ ")") ++ back) = .ok q ↔
          mostOpen (before ++ .openParen :: (middle ++ .closeParen :: after)) ≤ 64) := by
  refine ⟨hstretch.exists_cut hs, ?_⟩
  rintro front mid back ls ms rs hcut rfl rfl
  obtain ⟨htokens, t, ht, hquery⟩ := hstretch.exists_enclosed
  obtain ⟨-, rfl⟩ := hs.ofText_eq_ok_iff.1 h
  have hold : HasTokens text s.tokens := hs
  rw [htokens] at hold
  have hnew := hcut.hasTokens_enclosed hold
  refine ⟨hnew, ?_⟩
  rw [← ht] at hnew ⊢
  have hder : t.Derives (front ++ ("(" ++ mid ++ ")") ++ back) := hnew
  rw [hder.ofText_eq_ok_iff, hquery, mostOpen_tokens]
  exact ⟨fun h => h.1, fun h => ⟨h, rfl⟩⟩

theorem ofText_enclosed_three : ∃ q, Query.ofText "a=1 AND b=2 AND c=3" = .ok q ∧
    Query.ofText ("a=1 AND " ++ ("(" ++ "b=2 AND c=3" ++ ")") ++ "") = .ok q ∧
    Query.ofText ("" ++ ("(" ++ "a=1 AND b=2" ++ ")") ++ " AND c=3") = .ok q := by
  have hp : (Cursor.ofText "a=1 AND b=2 AND c=3").Passes
      [⟨.identifier "a", "a", .start⟩, ⟨.comparison .equal, "=", ⟨1, 1, 2⟩⟩,
        ⟨.literal (.int 1), "1", ⟨2, 1, 3⟩⟩, ⟨.keyword .and, "AND", ⟨4, 1, 5⟩⟩,
        ⟨.identifier "b", "b", ⟨8, 1, 9⟩⟩, ⟨.comparison .equal, "=", ⟨9, 1, 10⟩⟩,
        ⟨.literal (.int 2), "2", ⟨10, 1, 11⟩⟩, ⟨.keyword .and, "AND", ⟨12, 1, 13⟩⟩,
        ⟨.identifier "c", "c", ⟨16, 1, 17⟩⟩, ⟨.comparison .equal, "=", ⟨17, 1, 18⟩⟩,
        ⟨.literal (.int 3), "3", ⟨18, 1, 19⟩⟩] ⟨[], ⟨19, 1, 20⟩⟩ :=
    .cons rfl nofun (.cons rfl nofun (.cons rfl nofun (.cons rfl nofun (.cons rfl nofun
      (.cons rfl nofun (.cons rfl nofun (.cons rfl nofun (.cons rfl nofun (.cons rfl nofun
        (.cons rfl nofun (.nil _)))))))))))
  have htokenize := tokenize_of_passes hp (by simp)
  have hder : (Sentence.filter (.one (.more (.more (.one (.test (.compare "a" .equal (.int 1))))
      (.test (.compare "b" .equal (.int 2)))) (.test (.compare "c" .equal (.int 3)))))).Derives
        "a=1 AND b=2 AND c=3" := ⟨_, htokenize, rfl⟩
  have hq := hder.ofText_eq_ok_iff.2 ⟨by decide, rfl⟩
  have hback : Cut "a=1 AND b=2 AND c=3" "a=1 AND " "b=2 AND c=3" "" [_, _, _, _]
      [_, _, _, _, _, _, _] [_] := ⟨rfl, htokenize, by simp, by decide, by decide, by decide⟩
  have hfront : Cut "a=1 AND b=2 AND c=3" "" "a=1 AND b=2" " AND c=3" []
      [_, _, _, _, _, _, _] [_, _, _, _, _] :=
    ⟨rfl, htokenize, by simp, by decide, by decide, by decide⟩
  refine ⟨_, hq, ((@ofText_enclosed _ _ _ _ _ [] hq hder ?_).2 _ _ _ _ _ _
      hback rfl rfl).2.2 (by decide),
    ((@ofText_enclosed _ _ _ _ _ [.keyword .and, .identifier "c", .comparison .equal,
      .literal (.int 3)] hq hder ?_).2 _ _ _ _ _ _ hfront rfl rfl).2.2 (by decide)⟩
  · exact .filter (@Disjunction.Stretch.operands _ [] [] _ rfl
      [.test (.compare "a" .equal (.int 1))] [.test (.compare "b" .equal (.int 2)),
        .test (.compare "c" .equal (.int 3))] [] rfl (by simp))
  · exact .filter (@Disjunction.Stretch.operands _ [] [] _ rfl []
      [.test (.compare "a" .equal (.int 1)), .test (.compare "b" .equal (.int 2))]
      [.test (.compare "c" .equal (.int 3))] rfl (by simp))

end FilterQuery
