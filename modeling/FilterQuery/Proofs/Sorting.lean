import FilterQuery.Proofs.Coalescing

/-!
# Sort items and their object

Sort items become an object by being written to it from left to right, and a direction is looked up
in them from right to left. The two agree (`SortItem.find?_directions`): an identifier has its place
from the first item with it and its direction from the last one. An ORDER BY clause is read without
any of this. Its items are those of its terms, however often an identifier comes
(`exists_orderedBy_of_ofText`).
-/

namespace FilterQuery

/-- The object of directions has their keys, and the signs of the directions under these. -/
theorem Direction.exists_toJson_eq (entries : Entries Direction) : ∃ fields,
    toJson entries = .obj fields ∧ Entries.keys fields = Entries.keys entries ∧
      ∀ key, Entries.find? key fields =
        (Entries.find? key entries).map fun direction => .int direction.sign := by
  refine ⟨_, rfl, by simp [Entries.keys], fun key => ?_⟩
  induction entries with
  | nil => rfl
  | cons entry rest ih =>
    rw [List.map_cons, Entries.find?, Entries.find?, ih]
    split_ifs <;> rfl

theorem eraseDups_of_first {α : Type} [DecidableEq α] {front back : List α} {x : α}
    (h : x ∉ front) : front.eraseDups ++ [x] <+: (front ++ x :: back).eraseDups := by
  rw [List.append_cons front, List.eraseDups_append, eraseDups_concat, if_neg h]
  exact List.prefix_append _ _

namespace SortItem

variable {front back : List SortItem} {item : SortItem}

theorem directionOf?_eq_none_iff {items : List SortItem} {name : String} :
    directionOf? items name = none ↔ name ∉ items.map identifier := by
  simp [directionOf?]

/-- The last item with an identifier gives its direction. -/
theorem directionOf?_of_last (h : item.identifier ∉ back.map identifier) :
    directionOf? (front ++ item :: back) item.identifier = some item.direction := by
  have hback : back.reverse.find? (·.identifier = item.identifier) = none := by
    simpa using h
  simp [directionOf?, hback]

/-- The first item with an identifier gives its place, behind those of the items in front of it. -/
theorem keys_directions_of_first (h : item.identifier ∉ front.map identifier) :
    (front.map identifier).eraseDups ++ [item.identifier] <+:
      Entries.keys (directions (front ++ item :: back)) := by
  rw [keys_directions, List.map_append, List.map_cons]
  exact eraseDups_of_first h

end SortItem

/-- The tokens of an ORDER BY clause. -/
def SortTerm.clause (terms : List SortTerm) : List Token :=
  .keyword .order :: .keyword .byKeys :: [Token.comma].intercalate (terms.map tokens)

/-- The tokens say what is sorted by: nothing, or the items that the terms of a clause denote. -/
inductive OrderedBy : List Token → Option (List SortItem) → Prop
  | nothing : OrderedBy [] none
  | clause {terms : List SortTerm} {items : List SortItem}
      (h : List.Forall₂ SortTerm.Denotes terms items) :
      OrderedBy (SortTerm.clause terms) (some items)

theorem Run.orderedBy (terms : Run SortTerm) :
    OrderedBy terms.orderTokens (some (terms.toList.map SortTerm.item)) := by
  rw [orderTokens, tokens_eq]
  exact .clause ((Condition.forall₂_iff_eq_map SortTerm.denotes_iff _ _).2 rfl)

/-- In the tokens of a sentence, what it sorts by stands behind what it filters by. -/
theorem Sentence.exists_orderedBy (s : Sentence) {lexemes : List Lexeme}
    (h : lexemes.map Lexeme.token = s.tokens ++ [.endOfInput]) : ∃ ts,
      lexemes.map Lexeme.token = filterTokens lexemes ++ ts ++ [.endOfInput] ∧
        OrderedBy ts s.query.order := by
  cases s with
  | filter d =>
    refine ⟨[], ?_, .nothing⟩
    rw [d.shows.filterTokens_eq h (.inr rfl), h, List.append_nil]
    rfl
  | order terms =>
    refine ⟨terms.orderTokens, ?_, terms.orderedBy⟩
    rw [Shows.done.filterTokens_eq h (.inl rfl), h]
    rfl
  | both d terms =>
    refine ⟨terms.orderTokens, ?_, terms.orderedBy⟩
    rw [tokens, List.append_assoc] at h
    rw [d.shows.filterTokens_eq h (.inl rfl), h, List.append_assoc]

theorem exists_orderedBy_of_ofText {text : String} {q : Query} (h : Query.ofText text = .ok q) :
    ∃ lexemes ts, tokenize text = .ok lexemes ∧
      lexemes.map Lexeme.token = filterTokens lexemes ++ ts ++ [.endOfInput] ∧
        OrderedBy ts q.order := by
  by_cases ht : text = ""
  · subst ht
    cases h
    obtain ⟨lexemes, hl, htokens⟩ := @hasTokens_nil "" (by simp)
    refine ⟨lexemes, [], hl, ?_, .nothing⟩
    rw [Shows.done.filterTokens_eq htokens (.inr rfl), htokens, List.append_nil]
  · obtain ⟨s, ⟨lexemes, hl, htokens⟩, -, rfl⟩ := exists_derives_of_ofText h ht
    obtain ⟨ts, hsplit, hts⟩ := s.exists_orderedBy htokens
    exact ⟨lexemes, ts, hl, hsplit, hts⟩

/-- The object of sort items has their identifiers, each once and where it first comes, and under
each of them the direction that is looked up in the items, which is that of the last one. Nothing is
found for another name. The items of an accepted text are those that the terms of its ORDER BY
clause denote, one for each and in their order; a text without the clause has none. -/
theorem sort_tells_items :
    (∀ items : List SortItem, ∃ fields,
      Direction.toJson (SortItem.directions items) = .obj fields ∧
      Entries.keys fields = (items.map SortItem.identifier).eraseDups ∧
      (Entries.keys fields).Nodup ∧
      (∀ name, Entries.find? name fields =
        (SortItem.directionOf? items name).map fun direction => .int direction.sign) ∧
      (∀ name, SortItem.directionOf? items name = none ↔
        name ∉ items.map SortItem.identifier) ∧
      ∀ front item back, items = front ++ item :: back →
        (item.identifier ∉ front.map SortItem.identifier →
          (front.map SortItem.identifier).eraseDups ++ [item.identifier] <+: Entries.keys fields) ∧
        (item.identifier ∉ back.map SortItem.identifier →
          SortItem.directionOf? items item.identifier = some item.direction)) ∧
    ∀ text q, Query.ofText text = .ok q → ∃ lexemes ts, tokenize text = .ok lexemes ∧
      lexemes.map Lexeme.token = filterTokens lexemes ++ ts ++ [.endOfInput] ∧
        OrderedBy ts q.order := by
  refine ⟨fun items => ?_, fun _ _ => exists_orderedBy_of_ofText⟩
  obtain ⟨fields, hfields, hkeys, hfind⟩ := Direction.exists_toJson_eq (SortItem.directions items)
  refine ⟨fields, hfields, ?_, ?_, fun name => ?_,
    fun name => SortItem.directionOf?_eq_none_iff, ?_⟩
  · rw [hkeys, SortItem.keys_directions]
  · rw [hkeys]
    exact SortItem.nodup_keys_directions items
  · rw [hfind, SortItem.find?_directions]
  · rintro front item back rfl
    rw [hkeys]
    exact ⟨SortItem.keys_directions_of_first, SortItem.directionOf?_of_last⟩

theorem sort_tells_items_of_repeated : ∃ q items fields lexemes,
    Query.ofText "ORDER BY a, b, a DESC" = .ok q ∧ q.order = some items ∧
    Direction.toJson (SortItem.directions items) = .obj fields ∧
    Entries.keys fields = ["a", "b"] ∧ Entries.find? "a" fields = some (.int (-1)) ∧
    tokenize "ORDER BY a, b, a DESC" = .ok lexemes ∧ ∃ ts,
      lexemes.map Lexeme.token = filterTokens lexemes ++ ts ++ [.endOfInput] ∧
        OrderedBy ts (some [⟨"a", .ascending⟩, ⟨"b", .ascending⟩, ⟨"a", .descending⟩]) := by
  have hread : Sentence.ofText "ORDER BY a, b, a DESC" = .ok (.order
      (.more (.more (.one ⟨"a", none⟩) ⟨"b", none⟩) ⟨"a", some .descending⟩)) := by
    refine Stage.read_eq_ok_of_passes (.cons rfl nofun (.cons rfl nofun (.cons rfl nofun
      (.cons rfl nofun (.cons rfl nofun (.cons rfl nofun (.cons rfl nofun (.cons rfl nofun
        (.nil _))))))))) ?_ rfl rfl
    nofun
  have h := (ofText_eq_ok_iff_sentence (by decide)).2 ⟨_, hread, rfl⟩
  obtain ⟨fields, hfields, hkeys, -, hfind, -⟩ := sort_tells_items.1
    [⟨"a", .ascending⟩, ⟨"b", .ascending⟩, ⟨"a", .descending⟩]
  obtain ⟨lexemes, ts, hl, hts⟩ := sort_tells_items.2 _ _ h
  exact ⟨_, _, fields, lexemes, h, rfl, hfields, hkeys.trans (by decide), hfind "a", hl, ts, hts⟩

end FilterQuery
