import FilterQuery.Proofs.Cutting
import FilterQuery.Proofs.Runs

/-!
# Putting queries together

Texts with a word between them have the tokens of each, with the token of the word between them
(`hasTokens_intercalate`). OR between disjunctions makes one disjunction of all their conjunctions,
and it makes no difference whether these are joined at once or first text by text. AND binds more
closely, so the disjunctions need parentheses, and each of them may have one group less.
-/

namespace FilterQuery

theorem hasTokens_or : HasTokens " OR" [.keyword .or] :=
  ⟨_, @tokenize_of_passes " OR" _ ⟨[], _⟩ (.cons rfl nofun (.nil _)) (by simp), rfl⟩

theorem hasTokens_and : HasTokens " AND" [.keyword .and] :=
  ⟨_, @tokenize_of_passes " AND" _ ⟨[], _⟩ (.cons rfl nofun (.nil _)) (by simp), rfl⟩

/-- Two texts with a blank between them. -/
theorem HasTokens.append_blank {u v : String} {ts us : List Token} (hu : HasTokens u ts)
    (hv : HasTokens v us) : HasTokens (u ++ " " ++ v) (ts ++ us) := by
  rw [String.append_assoc]
  refine hu.append hv.blank fun t _ c hc => ?_
  rw [String.toList_append] at hc
  rw [← Option.some.inj hc]
  exact not_gluesTo_of_isBlank (by decide) t

/-- Texts with a word between them, which has a blank in front and gets one behind. -/
theorem hasTokens_intercalate {word : String} {t : Token} (hword : HasTokens word [t])
    (hblank : word.toList.head? = some ' ') {ws : List String} {tss : List (List Token)}
    (h : List.Forall₂ HasTokens ws tss) (hne : ws ≠ []) :
    HasTokens ((word ++ " ").intercalate ws) ([t].intercalate tss) := by
  induction h with
  | nil => exact absurd rfl hne
  | @cons w ts ws tss hw hws ih =>
    cases hws with
    | nil => simpa using hw
    | @cons v us ws tss hv hws =>
      have hjoined := hw.append (hword.append_blank (ih (by simp))) fun u _ c hc => by
        rw [String.append_assoc, String.toList_append, List.head?_append, hblank] at hc
        rw [← Option.some.inj hc]
        exact not_gluesTo_of_isBlank (by decide) u
      rw [String.intercalate_cons_cons, List.intercalate_cons_cons]
      simpa [String.append_assoc] using hjoined

section Phrases

variable {w : String} {ws : List String} {ds : List Disjunction} {n : Nat}

theorem exists_disjunction_of_ofText {x : Condition} (h : Query.ofText w = .ok ⟨some x, none⟩) :
    ∃ d : Disjunction, HasTokens w d.tokens ∧ d.depth ≤ maxNesting ∧ d.condition = x := by
  obtain ⟨s, hs, hd, hq⟩ := exists_derives_of_ofText h (ne_empty_of_ofText h rfl)
  cases s with
  | filter d =>
    cases hq
    exact ⟨d, hs, hd, rfl⟩
  | order terms | both d terms => cases hq

theorem exists_terms_of_ofText {items : List SortItem}
    (h : Query.ofText w = .ok ⟨none, some items⟩) :
    ∃ terms : Run SortTerm, HasTokens w terms.orderTokens ∧
      terms.toList.map SortTerm.item = items := by
  obtain ⟨s, hs, -, hq⟩ := exists_derives_of_ofText h (ne_empty_of_ofText h rfl)
  cases s with
  | order terms =>
    cases hq
    exact ⟨terms, hs, rfl⟩
  | filter d | both d terms => cases hq

/-- Texts that filter, and the disjunctions that they are. -/
theorem exists_disjunctions_of_ofText {xs : List Condition}
    (h : List.Forall₂ (fun w x => Query.ofText w = .ok ⟨some x, none⟩) ws xs) :
    ∃ ds : List Disjunction, List.Forall₂ (fun w d => HasTokens w d.tokens) ws ds ∧
      (∀ d ∈ ds, d.depth ≤ maxNesting) ∧ ds.map Disjunction.condition = xs := by
  induction h with
  | nil => exact ⟨[], .nil, by simp, rfl⟩
  | cons hw _ ih =>
    obtain ⟨d, hd, hdepth, rfl⟩ := exists_disjunction_of_ofText hw
    obtain ⟨ds, hds, hall, rfl⟩ := ih
    exact ⟨d :: ds, .cons hd hds, List.forall_mem_cons.2 ⟨hdepth, hall⟩, rfl⟩

theorem depth_le_of_mostOpen_le (h : List.Forall₂ (fun w d => HasTokens w d.tokens) ws ds)
    (hn : ∀ w ∈ ws, ∀ ts, HasTokens w ts → mostOpen ts ≤ n) : ∀ d ∈ ds, d.depth ≤ n := by
  induction h with
  | nil => simp
  | @cons w d ws ds hw _ ih =>
    obtain ⟨hfirst, hrest⟩ := List.forall_mem_cons.1 hn
    have hd : mostOpen (Sentence.filter d).tokens ≤ n := hfirst _ hw
    rw [mostOpen_tokens] at hd
    exact List.forall_mem_cons.2 ⟨hd, ih hrest⟩

/-- Disjunctions with OR between them are one disjunction. -/
theorem Disjunction.exists_joined (hne : ds ≠ []) (hn : ∀ d ∈ ds, d.depth ≤ n) : ∃ e : Disjunction,
      e.tokens = [Token.keyword .or].intercalate (ds.map tokens) ∧ e.depth ≤ n ∧
        Condition.Joins .or (ds.map condition) e.condition := by
  have hflatten : (ds.map toList).flatten ≠ [] := by
    obtain ⟨d, hd⟩ := List.exists_mem_of_ne_nil ds hne
    exact fun hnil => d.toList_ne_nil (List.flatten_eq_nil_iff.1 hnil _ (List.mem_map_of_mem hd))
  obtain ⟨e, he⟩ := exists_toList_eq hflatten
  refine ⟨e, ?_, ?_, ?_⟩
  · have hruns : ∀ ts ∈ ds.map fun d => d.toList.map Conjunction.tokens, ts ≠ [] :=
      List.forall_mem_map.2 fun d _ => by simpa using d.toList_ne_nil
    rw [e.tokens_eq, he, List.map_flatten, List.map_map]
    refine (intercalate_flatten hruns).symm.trans ?_
    rw [List.map_map]
    exact congrArg _ (List.map_congr_left fun d _ => d.tokens_eq.symm)
  · rw [depth_le_iff, he]
    intro c hc
    obtain ⟨cs, hcs, hc⟩ := List.mem_flatten.1 hc
    obtain ⟨d, hd, rfl⟩ := List.mem_map.1 hcs
    exact depth_le_iff.1 (hn d hd) c hc
  · have hpieces : List.Forall₂ (Condition.Joins .or)
        (ds.map fun d => d.toList.map Conjunction.condition) (ds.map condition) :=
      List.forall₂_map_left_iff.2 (List.forall₂_map_right_iff.2
        (List.forall₂_same.2 fun d _ => d.joins))
    have hjoins := e.joins
    rw [he, List.map_flatten, List.map_map] at hjoins
    exact (Condition.Joins.regroup hpieces).1 hjoins

/-- Groups with AND between them are one conjunction. -/
theorem Conjunction.exists_of_groups (hne : ds ≠ []) (hn : ∀ d ∈ ds, d.depth ≤ n) :
    ∃ e : Conjunction,
      e.tokens = [Token.keyword .and].intercalate (ds.map fun d => (Operand.group d).tokens) ∧
        e.depth ≤ n + 1 ∧ Condition.Joins .and (ds.map Disjunction.condition) e.condition := by
  obtain ⟨e, he⟩ := @exists_toList_eq (ds.map .group) (by simpa using hne)
  refine ⟨e, by rw [e.tokens_eq, he, List.map_map]; rfl, ?_, ?_⟩
  · rw [depth_le_iff, he]
    exact List.forall_mem_map.2 fun d hd => Nat.succ_le_succ (hn d hd)
  · have hjoins := e.joins
    rwa [he, List.map_map] at hjoins

end Phrases

/-- Texts that filter can be put together: with OR between them they ask for their conditions
joined by OR; in parentheses and with AND between them, if no more than 63 groups are open in any
of them, for their conditions joined by AND; and the first of them in front of a text that sorts
asks for what both ask for. -/
theorem ofText_combined {w : String} {ws : List String} {x : Condition} {xs : List Condition}
    (h : List.Forall₂ (fun w x => Query.ofText w = .ok ⟨some x, none⟩) (w :: ws) (x :: xs)) :
    Query.ofText (" OR ".intercalate (w :: ws)) = .ok ⟨some (.join .or x xs), none⟩ ∧
      ((∀ v ∈ w :: ws, ∀ ts, HasTokens v ts → mostOpen ts ≤ 63) →
        Query.ofText (" AND ".intercalate ((w :: ws).map fun v => "(" ++ v ++ ")")) =
          .ok ⟨some (.join .and x xs), none⟩) ∧
      ∀ o items, Query.ofText o = .ok ⟨none, some items⟩ →
        Query.ofText (w ++ " " ++ o) = .ok ⟨some x, some items⟩ := by
  obtain ⟨ds, htokens, hdepth, hxs⟩ := exists_disjunctions_of_ofText h
  have hne : ds ≠ [] := by
    rintro rfl
    cases hxs
  refine ⟨?_, fun hn => ?_, fun o items ho => ?_⟩
  · obtain ⟨e, he, hd, hjoins⟩ := Disjunction.exists_joined hne hdepth
    rw [hxs, Condition.joins_iff] at hjoins
    have hder : (Sentence.filter e).Derives (" OR ".intercalate (w :: ws)) := by
      have hjoined := hasTokens_intercalate hasTokens_or rfl
        (List.forall₂_map_right_iff.2 htokens) (List.cons_ne_nil w ws)
      rw [← he] at hjoined
      exact hjoined
    exact hder.ofText_eq_ok_iff.2 ⟨hd, by rw [Sentence.query, hjoins]⟩
  · obtain ⟨e, he, hd, hjoins⟩ :=
      Conjunction.exists_of_groups hne (depth_le_of_mostOpen_le htokens hn)
    rw [hxs, Condition.joins_iff] at hjoins
    have hgroups : List.Forall₂ HasTokens ((w :: ws).map fun v => "(" ++ v ++ ")")
        (ds.map fun d => (Operand.group d).tokens) :=
      List.forall₂_map_left_iff.2 (List.forall₂_map_right_iff.2
        (htokens.imp fun _ _ hv => hv.enclose))
    have hder : (Sentence.filter (.one e)).Derives
        (" AND ".intercalate ((w :: ws).map fun v => "(" ++ v ++ ")")) := by
      have hjoined := hasTokens_intercalate hasTokens_and rfl hgroups (by simp)
      rw [← he] at hjoined
      exact hjoined
    refine hder.ofText_eq_ok_iff.2 ⟨hd, ?_⟩
    rw [Sentence.query, ← hjoins]
    rfl
  · obtain ⟨hw, -⟩ := List.forall₂_cons.1 h
    obtain ⟨d, hd, hdepth, rfl⟩ := exists_disjunction_of_ofText hw
    obtain ⟨terms, ht, rfl⟩ := exists_terms_of_ofText ho
    have hder : (Sentence.both d terms).Derives (w ++ " " ++ o) := hd.append_blank ht
    exact hder.ofText_eq_ok_iff.2 ⟨hdepth, rfl⟩

theorem ofText_combined_two : ∃ x y items, Query.ofText "a = 1" = .ok ⟨some x, none⟩ ∧
    Query.ofText "b = 2" = .ok ⟨some y, none⟩ ∧ Query.ofText "ORDER BY c" = .ok ⟨none, some items⟩ ∧
    Query.ofText (" OR ".intercalate ["a = 1", "b = 2"]) = .ok ⟨some (.join .or x [y]), none⟩ ∧
    Query.ofText (" AND ".intercalate ["(" ++ "a = 1" ++ ")", "(" ++ "b = 2" ++ ")"]) =
      .ok ⟨some (.join .and x [y]), none⟩ ∧
    Query.ofText ("a = 1" ++ " " ++ "ORDER BY c") = .ok ⟨some x, some items⟩ := by
  have ha : (Sentence.filter (.one (.one (.test (.compare "a" .equal (.int 1)))))).Derives
      "a = 1" :=
    ⟨_, @tokenize_of_passes "a = 1" _ ⟨[], _⟩
      (.cons rfl nofun (.cons rfl nofun (.cons rfl nofun (.nil _)))) (by simp), rfl⟩
  have hb : (Sentence.filter (.one (.one (.test (.compare "b" .equal (.int 2)))))).Derives
      "b = 2" :=
    ⟨_, @tokenize_of_passes "b = 2" _ ⟨[], _⟩
      (.cons rfl nofun (.cons rfl nofun (.cons rfl nofun (.nil _)))) (by simp), rfl⟩
  have ho : (Sentence.order (.one ⟨"c", none⟩)).Derives "ORDER BY c" :=
    ⟨_, @tokenize_of_passes "ORDER BY c" _ ⟨[], _⟩
      (.cons rfl nofun (.cons rfl nofun (.cons rfl nofun (.nil _)))) (by simp), rfl⟩
  have hfirst := ha.ofText_eq_ok_iff.2 ⟨by decide, rfl⟩
  have hsecond := hb.ofText_eq_ok_iff.2 ⟨by decide, rfl⟩
  have horder := ho.ofText_eq_ok_iff.2 ⟨by decide, rfl⟩
  obtain ⟨hor, hand, hboth⟩ := ofText_combined (.cons hfirst (.cons hsecond .nil))
  have hopen : ∀ v ∈ ["a = 1", "b = 2"], ∀ ts, HasTokens v ts → mostOpen ts ≤ 63 := by
    intro v hv ts ht
    rcases List.mem_pair.1 hv with rfl | rfl
    · rw [ht.eq ha]
      decide
    · rw [ht.eq hb]
      decide
  exact ⟨_, _, _, hfirst, hsecond, horder, hor, hand hopen, hboth _ _ horder⟩

end FilterQuery
