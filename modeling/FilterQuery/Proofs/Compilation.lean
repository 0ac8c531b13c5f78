import FilterQuery.Proofs.Meaning
import FilterQuery.Proofs.Runs
import FilterQuery.Proofs.Writing
import FilterQuery.Session

/-!
# Documents say what sentences say

A document is read like this: the keys `$and` and `$or` stand for all and at least one of the
documents in their arrays; any other key is an identifier, and what stands there is an object of one
operator or else the value that the identifier equals. Rendering without a hook keeps the truth
value of a condition whose identifiers are paths, since no path is one of the two keys
(`Condition.exists_render`); so the document of an accepted text says what the text says
(`holds_filter_parse`).
-/

namespace FilterQuery

/-- The operator that a key names. -/
def Operator.ofSymbol? : String → Option Operator
  | "$gt" => some (.compare .greater)
  | "$lt" => some (.compare .less)
  | "$gte" => some (.compare .greaterEqual)
  | "$lte" => some (.compare .lessEqual)
  | "$ne" => some (.compare .notEqual)
  | "$in" => some .isIn
  | "$nin" => some .isNotIn
  | _ => none

/-- The connective that a key names. -/
def Connective.ofSymbol? : String → Option Connective
  | "$and" => some .and
  | "$or" => some .or
  | _ => none

namespace Json

section Holds

variable {V : Type} (m : Interpretation V)

/-- What the JSON at an identifier says of its value: the relation that an operator names, or
equality. -/
def meets (x : V) : Json → Option Bool
  | .obj [(symbol, value)] =>
    match Operator.ofSymbol? symbol, value with
    | some (.compare op), value => some (m.compare op x value)
    | some .isIn, .arr values => some (m.isIn x values)
    | some .isNotIn, .arr values => some (m.isNotIn x values)
    | _, _ => none
  | .obj _ => none
  | value => some (m.compare .equal x value)

variable (env : String → V)

mutual

/-- The truth value of a document, if it is one. -/
def holds : Json → Option Bool
  | .obj [(key, .arr items)] =>
    match Connective.ofSymbol? key with
    | some c => (holdsOfAll items).map c.combine
    | none => (arr items).meets m (env key)
  | .obj [(key, value)] =>
    match Connective.ofSymbol? key with
    | some _ => none
    | none => value.meets m (env key)
  | _ => none

def holdsOfAll : List Json → Option (List Bool)
  | [] => some []
  | x :: xs => x.holds.bind fun b => (holdsOfAll xs).map (b :: ·)

end

end Holds

end Json

variable {V : Type} {m : Interpretation V} {env : String → V}

theorem Operator.ofSymbol?_of_symbol? {op : Operator} {symbol : String}
    (h : op.symbol? = some symbol) : ofSymbol? symbol = some op := by
  rcases op with op | _ | _
  · cases op <;> cases h <;> rfl
  · cases h
    rfl
  · cases h
    rfl

theorem Connective.ofSymbol?_symbol (c : Connective) : ofSymbol? c.symbol = some c := by
  cases c <;> rfl

/-- No path is the key of a connective. -/
theorem Connective.ofSymbol?_of_isPath {name : String} (h : IsPath name.toList) :
    ofSymbol? name = none := by
  unfold ofSymbol?
  split
  · exact absurd h (by decide)
  · exact absurd h (by decide)
  · rfl

namespace Json

theorem holds_single {key : String} (h : Connective.ofSymbol? key = none) (value : Json) :
    (single key value).holds m env = value.meets m (env key) := by
  cases value <;> simp [single, holds, h]

theorem holds_single_symbol (c : Connective) (items : List Json) :
    (single c.symbol (.arr items)).holds m env = (holdsOfAll m env items).map c.combine := by
  simp [single, holds, c.ofSymbol?_symbol]

end Json

theorem Literal.meets_toJson (v : Literal) (x : V) :
    v.toJson.meets m x = some (m.compare .equal x v.toJson) := by
  cases v with
  | float x => cases x <;> rfl
  | _ => rfl

theorem Leaf.holds_document {l : Leaf} (h : IsPath l.identifier.toList) :
    l.call.document.holds m env = some (l.holds m env) := by
  have hkey := Connective.ofSymbol?_of_isPath h
  obtain ⟨name, ⟨op, v⟩ | ⟨negated, values⟩⟩ := l
  · simp only [Leaf.call, Call.document, Leaf.holds]
    cases hs : (Operator.compare op).symbol? with
    | none =>
      obtain rfl : op = .equal := by cases op <;> first | rfl | cases hs
      rw [Json.holds_single hkey]
      exact v.meets_toJson (env name)
    | some symbol =>
      rw [Json.holds_single hkey]
      simp [Json.single, Json.meets, Operator.ofSymbol?_of_symbol? hs, Argument.toJson]
  · cases negated <;> exact Json.holds_single hkey _

theorem Condition.exists_renderAll {xs : List Condition}
    (h : ∀ x ∈ xs, ∃ json, x.render none = .done json ∧
      ∀ (V : Type) (m : Interpretation V) env, json.holds m env = some (x.holds m env)) :
    ∃ items, renderAll none xs = .done items ∧
      ∀ (V : Type) (m : Interpretation V) env,
        Json.holdsOfAll m env items = some (holdsOfAll m env xs) := by
  induction xs with
  | nil => exact ⟨[], rfl, fun _ _ _ => rfl⟩
  | cons x xs ih =>
    obtain ⟨json, hx, hj⟩ := h x List.mem_cons_self
    obtain ⟨items, hxs, hi⟩ := ih fun y hy => h y (List.mem_cons_of_mem x hy)
    refine ⟨json :: items, ?_, fun V m env => ?_⟩
    · rw [renderAll, hx, hxs]
      rfl
    · rw [Json.holdsOfAll, hj, hi]
      rfl

/-- Rendering without a hook makes a document that is as true as the condition. -/
theorem Condition.exists_render {x : Condition} (h : ∀ l ∈ x.leaves, IsPath l.identifier.toList) :
    ∃ json, x.render none = .done json ∧
      ∀ (V : Type) (m : Interpretation V) env, json.holds m env = some (x.holds m env) := by
  induction x using Condition.induction with
  | leaf l =>
    have hl : IsPath l.identifier.toList := h l (by simp [leaves])
    exact ⟨l.call.document, rfl, fun V m env => Leaf.holds_document hl⟩
  | node c xs ih =>
    obtain ⟨items, hxs, hi⟩ := exists_renderAll fun x hx =>
      ih x hx fun l hl => h l (mem_leaves_node.2 ⟨x, hx, hl⟩)
    refine ⟨.single c.symbol (.arr items), ?_, fun V m env => ?_⟩
    · rw [render, hxs]
      rfl
    · rw [Json.holds_single_symbol, hi]
      rfl

theorem Condition.mem_leaves_join {c : Connective} {x : Condition} {xs : List Condition} {l : Leaf}
    (h : l ∈ (join c x xs).leaves) : ∃ y ∈ x :: xs, l ∈ y.leaves := by
  rw [(joins_iff.2 rfl).leaves_eq] at h
  exact List.mem_flatMap.1 h

theorem Disjunction.identifier_mem_tokens (d : Disjunction) {x : Condition} {l : Leaf}
    (hx : x ∈ d.conditions.1 :: d.conditions.2) (hl : l ∈ x.leaves) :
    .identifier l.identifier ∈ d.tokens := by
  have h : l ∈ d.condition.leaves := by
    rw [d.joins.leaves_eq, ← d.conditions_eq]
    exact List.mem_flatMap.2 ⟨x, hx, hl⟩
  obtain ⟨t, rfl, ht⟩ := exists_test h
  exact ht t.identifier_mem_tokens

theorem Sentence.Derives.isPath {s : Sentence} {text : String} (h : s.Derives text) {name : String}
    (hn : .identifier name ∈ s.tokens) : IsPath name.toList := by
  obtain ⟨_, -, hs⟩ := Sentence.derives_iff.1 h
  rw [← hs] at hn
  obtain ⟨lexeme, hl, ht⟩ := List.mem_map.1 hn
  have hw := Cursor.isWritable_deliver _ lexeme hl
  rw [ht] at hw
  exact hw.1

def Sentence.filter? : Sentence → Option Disjunction
  | .filter d => some d
  | .order _ => none
  | .both d _ => some d

/-- A text that is accepted with a filter has one derivation, and what the parser without a hook
makes of the text is a document that is as true as what the derivation says, whatever the
identifiers and the operators stand for. -/
theorem holds_filter_parse {text : String} {q : Query} (h : Query.ofText text = .ok q)
    (hf : q.filter.isSome = true) :
    ∃ s d doc json, s.Derives text ∧ (∀ t : Sentence, t.Derives text → t = s) ∧
      s.filter? = some d ∧ Parser.plain.parse text = .ok (.done doc) ∧ doc.filter = some json ∧
      ∀ (V : Type) (m : Interpretation V) (env : String → V),
        json.holds m env = some (d.holds m env) := by
  have ht : text ≠ "" := by
    intro heq
    subst heq
    cases h
    cases hf
  obtain ⟨s, hs, rfl⟩ := (ofText_eq_ok_iff_sentence ht).1 h
  obtain ⟨hderives, hm⟩ := Sentence.ofText_eq_ok_iff.1 hs
  obtain ⟨d, hd, hq, htokens⟩ : ∃ d, s.filter? = some d ∧ s.query.filter = some d.condition ∧
      ∀ t ∈ d.tokens, t ∈ s.tokens := by
    cases s with
    | filter d => exact ⟨d, rfl, rfl, fun t ht => ht⟩
    | order terms => cases hf
    | both d terms => exact ⟨d, rfl, rfl, fun t ht => List.mem_append_left _ ht⟩
  obtain ⟨json, hrender, hjson⟩ := @Condition.exists_render d.condition fun l hl => by
    obtain ⟨y, hy, hl⟩ := Condition.mem_leaves_join hl
    exact hderives.isPath (htokens _ (d.identifier_mem_tokens hy hl))
  refine ⟨s, d, ⟨some json, s.query.order.map SortItem.directions⟩, json, hderives,
    fun t ht => Sentence.eq_of_derives hderives ht hm, hd, ?_, rfl, fun V m env => ?_⟩
  · rw [Parser.parse, h]
    simp only [Except.map, Parser.render, Query.render, Parser.plain, hq, hrender]
    rfl
  · rw [hjson, d.holds_condition]

theorem holds_filter_parse_or : ∃ q, Query.ofText "a = 1 OR b IN (2)" = .ok q ∧
    q.filter.isSome = true ∧ ∃ (d : Disjunction) (doc : Document) (json : Json),
      Parser.plain.parse "a = 1 OR b IN (2)" = .ok (.done doc) ∧ doc.filter = some json ∧
        ∀ (V : Type) (m : Interpretation V) (env : String → V),
          json.holds m env = some (d.holds m env) := by
  have hread : Sentence.ofText "a = 1 OR b IN (2)" = .ok (.filter (.more
      (.one (.one (.test (.compare "a" .equal (.int 1)))))
      (.one (.test (.member "b" false (.one (.int 2))))))) := by
    refine Stage.read_eq_ok_of_passes (.cons rfl nofun (.cons rfl nofun (.cons rfl nofun
      (.cons rfl nofun (.cons rfl nofun (.cons rfl nofun (.cons rfl nofun (.cons rfl nofun
        (.cons rfl nofun (.nil _)))))))))) ?_ rfl rfl
    nofun
  have h := (ofText_eq_ok_iff_sentence (by decide)).2 ⟨_, hread, rfl⟩
  obtain ⟨s, d, doc, json, -, -, -, hparse, hfilter, hholds⟩ := holds_filter_parse h rfl
  exact ⟨_, h, rfl, d, doc, json, hparse, hfilter, hholds⟩

end FilterQuery
