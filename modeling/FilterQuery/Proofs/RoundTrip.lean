import FilterQuery.Proofs.Printing
import FilterQuery.Proofs.Writing

/-!
# Reading what has been printed

A query can be written if its condition is normal and its identifiers and literals can be written.
A text that writes its tokens is read as that query exactly if no more groups are inside one another
than are read (`ofText_eq_ok_iff_groups`), so every query that keeps to the limit has a text, and is
read from all of them (`ofText_of_prints`).
-/

namespace FilterQuery

/-- The query can be written: its condition is normal and its leaves can be written; its sort items
have identifiers that can be written, and there is at least one. -/
structure Query.IsWritable (q : Query) : Prop where
  normal : ∀ x ∈ q.filter, x.isNormal = true
  leaves : ∀ x ∈ q.filter, ∀ l ∈ x.leaves, l.IsWritable
  order_ne_nil : ∀ items ∈ q.order, items ≠ []
  order : ∀ items ∈ q.order, ∀ item ∈ items, (Token.identifier item.identifier).IsWritable

/-- The text is one of the query: the empty text of the empty query, and otherwise any text that
writes the tokens of the query. -/
def Query.Prints (q : Query) (text : String) : Prop :=
  if q.isEmpty then text = "" else Written q.tokens text.toList

theorem Leaf.IsWritable.tokens {l : Leaf} (h : l.IsWritable) : ∀ t ∈ l.tokens, t.IsWritable := by
  obtain ⟨name, ⟨op, v⟩ | ⟨negated, values⟩⟩ := l
  · have hv := h.literals v (List.mem_singleton_self v)
    simpa [Leaf.tokens, Predicate.tokens] using ⟨h.identifier, trivial, hv⟩
  · have hvalues : ∀ t ∈ [Token.comma].intercalate (values.map fun v => [.literal v]),
        t.IsWritable := by
      refine forall_mem_intercalate trivial fun ts hts t ht => ?_
      obtain ⟨v, hv, rfl⟩ := List.mem_map.1 hts
      rw [List.mem_singleton.1 ht]
      exact h.literals v hv
    have hnot : ∀ t ∈ if negated then [Token.keyword .not] else [], t.IsWritable := by
      cases negated <;> simp [Token.IsWritable]
    intro t ht
    simp only [Leaf.tokens, Predicate.tokens, List.mem_cons, List.mem_append,
      List.not_mem_nil, or_false] at ht
    rcases ht with rfl | ht | rfl | rfl | ht | rfl
    · exact h.identifier
    · exact hnot t ht
    · trivial
    · trivial
    · exact hvalues t ht
    · trivial

theorem Condition.tokensOfAll_eq_map (c : Connective) : ∀ xs : List Condition,
    tokensOfAll c xs = xs.map fun x => enclose (x.isGroupIn c) x.tokens
  | [] => rfl
  | x :: xs => by rw [tokensOfAll, tokensOfAll_eq_map c xs, List.map_cons]

theorem isWritable_enclose {ts : List Token} (h : ∀ t ∈ ts, t.IsWritable) (inParens : Bool) :
    ∀ t ∈ enclose inParens ts, t.IsWritable := by
  cases inParens with
  | false => exact h
  | true =>
    intro t ht
    rcases List.mem_cons.1 ht with rfl | ht
    · trivial
    · rcases List.mem_append.1 ht with ht | ht
      · exact h t ht
      · rw [List.mem_singleton.1 ht]
        trivial

theorem Condition.isWritable_tokens {x : Condition} (h : ∀ l ∈ x.leaves, l.IsWritable) :
    ∀ t ∈ x.tokens, t.IsWritable := by
  induction x using Condition.induction with
  | leaf l => exact (h l (by simp [leaves])).tokens
  | node c xs ih =>
    have hc : c.token.IsWritable := by cases c <;> trivial
    rw [tokens, tokensOfAll_eq_map]
    refine forall_mem_intercalate hc fun ts hts => ?_
    obtain ⟨x, hx, rfl⟩ := List.mem_map.1 hts
    exact isWritable_enclose (ih x hx fun l hl => h l (mem_leaves_node.2 ⟨x, hx, hl⟩)) _

theorem Query.IsWritable.tokens {q : Query} (h : q.IsWritable) : ∀ t ∈ q.tokens, t.IsWritable := by
  obtain ⟨filter, order⟩ := q
  have hfilter : ∀ t ∈ (filter.map Condition.tokens).getD [], t.IsWritable := by
    cases filter with
    | none => simp
    | some x => exact Condition.isWritable_tokens (h.leaves x rfl)
  have horder : ∀ items ∈ order, ∀ t ∈ [Token.comma].intercalate (items.map SortItem.tokens),
      t.IsWritable := by
    intro items hi
    refine forall_mem_intercalate trivial fun ts hts => ?_
    obtain ⟨item, hitem, rfl⟩ := List.mem_map.1 hts
    have hd : item.direction.token.IsWritable := by cases item.direction <;> trivial
    simpa [SortItem.tokens] using ⟨h.order items hi item hitem, hd⟩
  intro t ht
  rcases List.mem_append.1 ht with ht | ht
  · exact hfilter t ht
  · cases order with
    | none => simp at ht
    | some items =>
      simp only [Option.map_some, Option.getD_some, List.mem_cons] at ht
      rcases ht with rfl | rfl | ht
      · trivial
      · trivial
      · exact horder items rfl t ht

section Printing

variable {q : Query}

theorem prints_iff_of_isEmpty (h : q.isEmpty = true) (text : String) :
    q.Prints text ↔ text = "" := by
  rw [Query.Prints, if_pos h]

theorem prints_iff_written (h : q.isEmpty = false) (text : String) :
    q.Prints text ↔ Written q.tokens text.toList := by
  rw [Query.Prints, if_neg (by simp [h])]

theorem Query.eq_empty_of_isEmpty : ∀ {q : Query}, q.isEmpty = true → q = .empty
  | ⟨none, none⟩, _ => rfl

theorem Query.IsWritable.exists_prints (h : q.IsWritable) : ∃ text, q.Prints text := by
  cases hq : q.isEmpty with
  | true => exact ⟨"", (prints_iff_of_isEmpty hq "").2 rfl⟩
  | false =>
    obtain ⟨cs, hw, -⟩ := exists_written fun t ht => (h.tokens t ht).exists_spells
    exact ⟨String.ofList cs, (prints_iff_written hq _).2 (by rwa [String.toList_ofList])⟩

/-- A text of a query is read as that query exactly if its groups keep to the limit. -/
theorem ofText_eq_ok_iff_groups (h : q.IsWritable) {text : String} (hp : q.Prints text) :
    Query.ofText text = .ok q ↔ q.groups ≤ maxNesting := by
  cases hq : q.isEmpty with
  | true =>
    obtain rfl := Query.eq_empty_of_isEmpty hq
    obtain rfl := (prints_iff_of_isEmpty hq text).1 hp
    exact ⟨fun _ => Nat.zero_le _, fun _ => rfl⟩
  | false =>
    obtain ⟨s, ht, hs, hd⟩ := Query.exists_sentence hq
      (fun x hx => ⟨h.normal x hx, fun l hl => (h.leaves x hx l hl).nonempty⟩) h.order_ne_nil
    have hw : Written s.tokens text.toList := ht ▸ (prints_iff_written hq text).1 hp
    have hder := Sentence.derives_of_written hw (ht ▸ h.tokens)
    rw [String.ofList_toList] at hder
    rw [hder.ofText_eq_ok_iff, hd, hs]
    exact and_iff_left rfl

/-- A query that can be written, with at most 64 nodes of OR below a node of AND on a way from the
root to a leaf, has a text, and it is read from all its texts. -/
theorem ofText_of_prints {q : Query} (h : q.IsWritable) (hg : q.groups ≤ 64) :
    (∃ text, q.Prints text) ∧ ∀ text, q.Prints text → Query.ofText text = .ok q :=
  ⟨h.exists_prints, fun _ hp => (ofText_eq_ok_iff_groups h hp).2 hg⟩

/-- A query with a group, a zero with a minus sign, a quote in a string and a sort item. -/
def Query.sample : Query where
  filter := some <| .node .and [.leaf ⟨"a", .compare .equal (.int 1)⟩,
    .node .or [.leaf ⟨"b.c", .compare .less (.float (.finite (.zero true)))⟩,
      .leaf ⟨"d", .member true [.string "it's", .null]⟩]]
  order := some [⟨"a", .descending⟩]

theorem ofText_of_prints_sample : Query.sample.IsWritable ∧ Query.sample.groups ≤ 64 ∧
    ∃ text, Query.sample.Prints text ∧ Query.ofText text = .ok Query.sample := by
  have hw : Query.sample.IsWritable := ⟨by decide, by decide, by decide, by decide⟩
  have hg : Query.sample.groups ≤ 64 := by decide
  obtain ⟨⟨text, hp⟩, hread⟩ := ofText_of_prints hw hg
  exact ⟨hw, hg, text, hp, hread text hp⟩

end Printing

end FilterQuery
