import FilterQuery.Proofs.Asking
import FilterQuery.Proofs.Compilation
import FilterQuery.Proofs.Replacing

/-!
# Reading documents back

A document without a hook tells its condition. An array under a key belongs to a node, an object
there to an operator, and anything else is what an identifier equals; so no identifier is taken for
an operator or a connective, whatever it is (`Condition.ofJson?_fill`). Documents that are equal as
values are read as conditions that are equal as values (`Condition.exists_sameValue`), and so
conditions with equal documents are equal.
-/

namespace FilterQuery

namespace Json

mutual

/-- Equality of values: numbers with a point are compared as numbers and are no whole numbers, and
the fields of an object may come in any order. -/
def sameValue : Json → Json → Bool
  | .null, .null => true
  | .bool a, .bool b => a = b
  | .int m, .int n => m = n
  | .float x, .float y => x.sameNumber y
  | .str s, .str t => s = t
  | .arr items, .arr others => sameItems items others
  | .obj fields, .obj others => fields.length = others.length && sameFields fields others
  | _, _ => false

def sameItems : List Json → List Json → Bool
  | [], [] => true
  | x :: xs, y :: ys => x.sameValue y && sameItems xs ys
  | _, _ => false

/-- Whether the others have the same value under the key of each field. -/
def sameFields : List (String × Json) → List (String × Json) → Bool
  | [], _ => true
  | (key, value) :: rest, others =>
    (match Entries.find? key others with
      | some other => value.sameValue other
      | none => false) && sameFields rest others

end

end Json

/-- A number with a point is finite. -/
def Literal.IsFinite : Literal → Prop
  | .float x => ∃ y, x = .finite y
  | _ => True

def Literal.ofJson? : Json → Option Literal
  | .null => some .null
  | .bool b => some (.bool b)
  | .int n => some (.int n)
  | .float x => some (.float (.finite x))
  | .str s => some (.string s)
  | .arr _ => none
  | .obj _ => none

/-- The predicate that stands at an identifier. -/
def Predicate.ofJson? : Json → Option Predicate
  | .obj [(symbol, value)] =>
    match Operator.ofSymbol? symbol, value with
    | some (.compare op), value => (Literal.ofJson? value).map (.compare op)
    | some .isIn, .arr values => (values.mapM Literal.ofJson?).map (.member false)
    | some .isNotIn, .arr values => (values.mapM Literal.ofJson?).map (.member true)
    | _, _ => none
  | value => (Literal.ofJson? value).map (.compare .equal)

namespace Condition

mutual

/-- The condition that a document stands for. -/
def ofJson? : Json → Option Condition
  | .obj [(key, .arr items)] =>
    (Connective.ofSymbol? key).bind fun c => (ofJsonAll? items).map (.node c)
  | .obj [(key, value)] => (Predicate.ofJson? value).map fun p => .leaf ⟨key, p⟩
  | _ => none

def ofJsonAll? : List Json → Option (List Condition)
  | [] => some []
  | x :: xs => (ofJson? x).bind fun y => (ofJsonAll? xs).map (y :: ·)

end

end Condition

theorem mapM_eq_some_iff {α β : Type} {f : α → Option β} {xs : List α} {ys : List β} :
    xs.mapM f = some ys ↔ List.Forall₂ (fun x y => f x = some y) xs ys := by
  induction xs generalizing ys with
  | nil => simp [eq_comm]
  | cons x xs ih =>
    rw [List.mapM_cons, List.forall₂_cons_left_iff]
    simp only [← ih]
    rcases f x with _ | y
    · simp
    · rcases xs.mapM f with _ | zs <;> simp [eq_comm]

theorem Literal.ofJson?_toJson {v : Literal} (h : v.IsFinite) : ofJson? v.toJson = some v := by
  cases v with
  | float x =>
    obtain ⟨y, rfl⟩ := h
    rfl
  | null | bool | int | string => rfl

theorem Literal.mapM_ofJson?_toJson {vs : List Literal} (h : ∀ v ∈ vs, v.IsFinite) :
    (vs.map toJson).mapM ofJson? = some vs := by
  rw [mapM_eq_some_iff, List.forall₂_map_left_iff, List.forall₂_same]
  exact fun v hv => ofJson?_toJson (h v hv)

/-- What stands at the identifier in the document of a call. -/
def Call.value (c : Call) : Json :=
  match c.operator.symbol? with
  | none => c.argument.toJson
  | some symbol => .single symbol c.argument.toJson

theorem Call.document_eq (c : Call) : c.document = .single c.identifier c.value := rfl

/-- No predicate is written as an array. -/
theorem Leaf.value_call_ne_arr (l : Leaf) (items : List Json) : l.call.value ≠ .arr items := by
  obtain ⟨name, ⟨op, v⟩ | ⟨negated, vs⟩⟩ := l
  · cases op with
    | equal =>
      cases v with
      | float x => cases x <;> nofun
      | null | bool | int | string => nofun
    | notEqual | less | greater | lessEqual | greaterEqual => nofun
  · cases negated <;> nofun

theorem Predicate.ofJson?_toJson {v : Literal} (h : v.IsFinite) :
    ofJson? v.toJson = some (.compare .equal v) := by
  cases v with
  | float x =>
    obtain ⟨y, rfl⟩ := h
    rfl
  | null | bool | int | string => rfl

theorem Predicate.ofJson?_value {l : Leaf} (h : ∀ v ∈ l.predicate.literals, v.IsFinite) :
    ofJson? l.call.value = some l.predicate := by
  obtain ⟨name, ⟨op, v⟩ | ⟨negated, vs⟩⟩ := l
  · have hv : v.IsFinite := h v (by simp [literals])
    rcases hs : (Operator.compare op).symbol? with _ | symbol
    · obtain rfl : op = .equal := by cases op <;> first | rfl | cases hs
      exact ofJson?_toJson hv
    · simp only [Leaf.call, Call.value, hs, Argument.toJson, Json.single, ofJson?,
        Operator.ofSymbol?_of_symbol? hs, Literal.ofJson?_toJson hv, Option.map_some]
  · have hvs : (vs.map Literal.toJson).mapM Literal.ofJson? = some vs :=
      Literal.mapM_ofJson?_toJson h
    cases negated with
    | false => exact congrArg (Option.map (member false)) hvs
    | true => exact congrArg (Option.map (member true)) hvs

namespace Condition

theorem ofJsonAll?_eq_mapM : ∀ items : List Json, ofJsonAll? items = items.mapM ofJson?
  | [] => rfl
  | item :: items => by
    rw [ofJsonAll?, ofJsonAll?_eq_mapM items, List.mapM_cons]
    rcases ofJson? item with _ | x
    · rfl
    · rcases items.mapM ofJson? with _ | xs <;> rfl

theorem ofJson?_single {key : String} {value : Json} (h : ∀ items, value ≠ .arr items) :
    ofJson? (.single key value) = (Predicate.ofJson? value).map fun p => .leaf ⟨key, p⟩ := by
  rw [Json.single, ofJson?]
  exact h

/-- A document is read as the condition that it was made of. -/
theorem ofJson?_fill {x : Condition} (h : ∀ v ∈ x.literals, v.IsFinite) :
    ofJson? (x.fill Call.document) = some x := by
  induction x using Condition.induction with
  | leaf l =>
    rw [fill, Call.document_eq, ofJson?_single l.value_call_ne_arr,
      Predicate.ofJson?_value (by simpa [literals, leaves] using h), l.identifier_call]
    rfl
  | node c xs ih =>
    have hxs : ofJsonAll? (xs.map (fill Call.document)) = some xs := by
      rw [ofJsonAll?_eq_mapM, mapM_eq_some_iff, List.forall₂_map_left_iff, List.forall₂_same]
      intro x hx
      refine ih x hx fun v hv => h v ?_
      rw [literals_node]
      exact List.mem_flatMap.2 ⟨x, hx, hv⟩
    rw [fill, fillAll_eq_map, Json.single, ofJson?, c.ofSymbol?_symbol, hxs]
    rfl

end Condition

section SameValue

variable {j k : Json}

namespace Json

theorem sameItems_iff : ∀ {items others : List Json}, sameItems items others = true ↔
    List.Forall₂ (fun x y => x.sameValue y = true) items others
  | [], [] => by simp [sameItems]
  | [], _ :: _ => by simp [sameItems]
  | _ :: _, [] => by simp [sameItems]
  | x :: xs, y :: ys => by simp [sameItems, @sameItems_iff xs ys]

theorem sameValue_arr_iff {items : List Json} : (arr items).sameValue k = true ↔
    ∃ others, k = .arr others ∧
      List.Forall₂ (fun x y => x.sameValue y = true) items others := by
  cases k <;> simp [sameValue, sameItems_iff]

theorem sameValue_single_iff {key : String} {value : Json} :
    (single key value).sameValue k = true ↔
      ∃ other, k = .single key other ∧ value.sameValue other = true := by
  cases k with
  | obj others =>
    rcases others with _ | ⟨⟨other, v⟩, _ | _⟩
    · simp [single, sameValue]
    · by_cases h : other = key <;> simp [single, sameValue, sameFields, Entries.find?, h]
    · simp [single, sameValue]
  | null | bool | int | float | str | arr => simp [single, sameValue]

end Json

/-- If things that go together are read, and with the first also the second as something that goes
with it, so are lists of them. -/
theorem exists_forall₂ {α β : Type} {read : α → Option β} {R : α → α → Prop} {S : β → β → Prop}
    {items others : List α} {xs : List β} (hsame : List.Forall₂ R items others)
    (hread : List.Forall₂ (fun item x => read item = some x) items xs)
    (h : ∀ x ∈ xs, ∀ item other, R item other → read item = some x →
      ∃ y, read other = some y ∧ S x y) :
    ∃ ys, List.Forall₂ (fun other y => read other = some y) others ys ∧ List.Forall₂ S xs ys := by
  induction hsame generalizing xs with
  | nil =>
    rw [List.forall₂_nil_left_iff.1 hread]
    exact ⟨[], .nil, .nil⟩
  | cons hfirst _ ih =>
    obtain ⟨x, xs, hx, hxs, rfl⟩ := List.forall₂_cons_left_iff.1 hread
    obtain ⟨y, hy, hxy⟩ := h x List.mem_cons_self _ _ hfirst hx
    obtain ⟨ys, hys, hall⟩ := ih hxs fun z hz => h z (List.mem_cons_of_mem x hz)
    exact ⟨y :: ys, .cons hy hys, .cons hxy hall⟩

theorem Literal.exists_sameValue (h : j.sameValue k = true) {v : Literal}
    (hv : ofJson? j = some v) : ∃ w, ofJson? k = some w ∧ v.sameValue w = true := by
  cases j with
  | null =>
    cases hv
    cases k <;> simp_all [Json.sameValue, ofJson?, sameValue]
  | bool b =>
    cases hv
    cases k <;> simp_all [Json.sameValue, ofJson?, sameValue]
  | int n =>
    cases hv
    cases k <;> simp_all [Json.sameValue, ofJson?, sameValue]
  | float x =>
    cases hv
    cases k <;> simp_all [Json.sameValue, ofJson?, sameValue, Binary64.sameNumber]
  | str s =>
    cases hv
    cases k <;> simp_all [Json.sameValue, ofJson?, sameValue]
  | arr | obj => cases hv

theorem Literal.forall₂_of_mapM {items : List Json} {vs : List Literal}
    (h : items.mapM ofJson? = some vs) {others : List Json}
    (hsame : List.Forall₂ (fun j k => j.sameValue k = true) items others) :
    ∃ ws, others.mapM ofJson? = some ws ∧
      List.Forall₂ (fun v w => v.sameValue w = true) vs ws := by
  obtain ⟨ws, hws, hall⟩ := exists_forall₂ hsame (mapM_eq_some_iff.1 h)
    fun v _ j k hjk hv => Literal.exists_sameValue hjk hv
  exact ⟨ws, mapM_eq_some_iff.2 hws, hall⟩

namespace Predicate

/-- The ways in which a predicate is written. -/
inductive IsReadFrom : Json → Predicate → Prop
  | equal {j : Json} {v : Literal} (hv : Literal.ofJson? j = some v) :
    IsReadFrom j (.compare .equal v)
  | compare {symbol : String} {value : Json} {op : Comparison} {v : Literal}
    (hs : Operator.ofSymbol? symbol = some (.compare op)) (hv : Literal.ofJson? value = some v) :
    IsReadFrom (.single symbol value) (.compare op v)
  | member {symbol : String} {values : List Json} {negated : Bool} {vs : List Literal}
    (hs : Operator.ofSymbol? symbol = some (if negated then .isNotIn else .isIn))
    (hvs : values.mapM Literal.ofJson? = some vs) :
    IsReadFrom (.single symbol (.arr values)) (.member negated vs)

theorem ofJson?_eq_some_iff {p : Predicate} : ofJson? j = some p ↔ IsReadFrom j p := by
  constructor
  · intro h
    unfold ofJson? at h
    split at h
    · split at h
      · rename_i hs
        obtain ⟨v, hv, rfl⟩ := Option.map_eq_some_iff.1 h
        exact .compare hs hv
      · rename_i hs
        obtain ⟨vs, hvs, rfl⟩ := Option.map_eq_some_iff.1 h
        exact .member hs hvs
      · rename_i hs
        obtain ⟨vs, hvs, rfl⟩ := Option.map_eq_some_iff.1 h
        exact .member hs hvs
      · cases h
    · obtain ⟨v, hv, rfl⟩ := Option.map_eq_some_iff.1 h
      exact .equal hv
  · rintro (hv | ⟨hs, hv⟩ | ⟨hs, hvs⟩)
    · cases j with
      | null | bool | int | float | str => exact congrArg (Option.map (compare .equal)) hv
      | arr | obj => cases hv
    · simp [Json.single, ofJson?, hs, hv]
    · rename_i negated _
      cases negated <;> simp [Json.single, ofJson?, hs, hvs]

theorem sameValue_member {negated : Bool} {vs ws : List Literal}
    (h : List.Forall₂ (fun v w => v.sameValue w = true) vs ws) :
    (member negated vs).sameValue (member negated ws) = true := by
  obtain ⟨hlength, hall⟩ := List.forall₂_iff_zip.1 h
  simp only [sameValue, hlength, decide_true, Bool.true_and, List.all_eq_true]
  rintro ⟨v, w⟩ hmem
  exact hall hmem

theorem exists_sameValue (h : j.sameValue k = true) {p : Predicate} (hp : ofJson? j = some p) :
    ∃ r, ofJson? k = some r ∧ p.sameValue r = true := by
  simp only [ofJson?_eq_some_iff] at hp ⊢
  cases hp with
  | equal hv =>
    obtain ⟨w, hw, hvw⟩ := Literal.exists_sameValue h hv
    exact ⟨_, .equal hw, by simpa [sameValue] using hvw⟩
  | compare hs hv =>
    obtain ⟨other, rfl, hother⟩ := Json.sameValue_single_iff.1 h
    obtain ⟨w, hw, hvw⟩ := Literal.exists_sameValue hother hv
    exact ⟨_, .compare hs hw, by simpa [sameValue] using hvw⟩
  | member hs hvs =>
    obtain ⟨other, rfl, hother⟩ := Json.sameValue_single_iff.1 h
    obtain ⟨others, rfl, hall⟩ := Json.sameValue_arr_iff.1 hother
    obtain ⟨ws, hws, hvw⟩ := Literal.forall₂_of_mapM hvs hall
    exact ⟨_, .member hs hws, sameValue_member hvw⟩

end Predicate

namespace Condition

theorem sameValues_iff : ∀ {xs ys : List Condition}, sameValues xs ys = true ↔
    List.Forall₂ (fun x y => x.sameValue y = true) xs ys
  | [], [] => by simp [sameValues]
  | [], _ :: _ => by simp [sameValues]
  | _ :: _, [] => by simp [sameValues]
  | x :: xs, y :: ys => by simp [sameValues, @sameValues_iff xs ys]

theorem ofJson?_eq_leaf {l : Leaf} (h : ofJson? j = some (.leaf l)) :
    ∃ value, j = .single l.identifier value ∧ (∀ items, value ≠ .arr items) ∧
      Predicate.ofJson? value = some l.predicate := by
  unfold ofJson? at h
  split at h
  · obtain ⟨c, -, h⟩ := Option.bind_eq_some_iff.1 h
    obtain ⟨xs, -, h⟩ := Option.map_eq_some_iff.1 h
    cases h
  · rename_i key value hvalue
    obtain ⟨p, hp, hl⟩ := Option.map_eq_some_iff.1 h
    cases hl
    exact ⟨value, rfl, hvalue, hp⟩
  · cases h

theorem ofJson?_eq_node {c : Connective} {xs : List Condition} (h : ofJson? j = some (.node c xs)) :
    ∃ key items, j = .single key (.arr items) ∧
      Connective.ofSymbol? key = some c ∧ items.mapM ofJson? = some xs := by
  unfold ofJson? at h
  split at h
  · rename_i key items
    obtain ⟨d, hd, h⟩ := Option.bind_eq_some_iff.1 h
    obtain ⟨ys, hys, hnode⟩ := Option.map_eq_some_iff.1 h
    cases hnode
    exact ⟨key, items, rfl, hd, ofJsonAll?_eq_mapM items ▸ hys⟩
  · simp at h
  · cases h

/-- Documents that are equal as values are read as conditions that are. -/
theorem exists_sameValue {x : Condition} (h : j.sameValue k = true) (hx : ofJson? j = some x) :
    ∃ y, ofJson? k = some y ∧ x.sameValue y = true := by
  induction x using Condition.induction generalizing j k with
  | leaf l =>
    obtain ⟨value, rfl, hvalue, hp⟩ := ofJson?_eq_leaf hx
    obtain ⟨other, rfl, hother⟩ := Json.sameValue_single_iff.1 h
    obtain ⟨r, hr, hsame⟩ := Predicate.exists_sameValue hother hp
    have hne : ∀ items, other ≠ .arr items := by
      rintro items rfl
      cases hr
    refine ⟨.leaf ⟨l.identifier, r⟩, ?_, ?_⟩
    · rw [ofJson?_single hne, hr]
      rfl
    · simpa [sameValue, Leaf.sameValue] using hsame
  | node c xs ih =>
    obtain ⟨key, items, rfl, hkey, hxs⟩ := ofJson?_eq_node hx
    obtain ⟨other, rfl, hother⟩ := Json.sameValue_single_iff.1 h
    obtain ⟨others, rfl, hall⟩ := Json.sameValue_arr_iff.1 hother
    obtain ⟨ys, hys, hsame⟩ := exists_forall₂ hall (mapM_eq_some_iff.1 hxs)
      fun x hx j k => ih x hx
    refine ⟨.node c ys, ?_, ?_⟩
    · rw [Json.single, ofJson?, hkey, ofJsonAll?_eq_mapM, mapM_eq_some_iff.2 hys]
      rfl
    · simpa [sameValue] using sameValues_iff.2 hsame

end Condition

/-- A condition whose numbers are finite can be read off its document without a hook, whatever its
shape and its identifiers. So two such conditions are equal if their documents are: as data, and as
values, where numbers with a point are compared as numbers. -/
theorem document_tells_condition :
    (∀ x : Condition, (∀ v ∈ x.literals, v.IsFinite) →
      ∃ json, x.render none = .done json ∧ Condition.ofJson? json = some x) ∧
    ∀ x y : Condition, (∀ v ∈ x.literals, v.IsFinite) → (∀ v ∈ y.literals, v.IsFinite) →
      ∀ j k, x.render none = .done j → y.render none = .done k →
        (j = k → x = y) ∧ (j.sameValue k = true → x.sameValue y = true) := by
  have hread : ∀ x : Condition, (∀ v ∈ x.literals, v.IsFinite) → ∀ j, x.render none = .done j →
      Condition.ofJson? j = some x := by
    intro x h j hj
    rw [x.render_none] at hj
    rw [← Except.ok.inj (congrArg Rendering.outcome hj)]
    exact Condition.ofJson?_fill h
  refine ⟨fun x h => ⟨_, x.render_none, hread x h _ x.render_none⟩,
    fun x y hx hy j k hj hk => ⟨fun hjk => ?_, fun hjk => ?_⟩⟩
  · have hxj := hread x hx j hj
    rw [hjk, hread y hy k hk] at hxj
    exact (Option.some.inj hxj).symm
  · obtain ⟨z, hz, hxz⟩ := Condition.exists_sameValue hjk (hread x hx j hj)
    rw [hread y hy k hk] at hz
    rw [Option.some.inj hz]
    exact hxz

/-- The keys of connectives and operators as identifiers, nodes and lists with nothing in them. -/
example : Condition.ofJson? (.single "$or" (.arr [.single "$and" (.single "$in" (.arr [])),
    .single "$and" (.arr []), .single "$in" (.single "$ne" .null)])) =
      some (.node .or [.leaf ⟨"$and", .member false []⟩, .node .and [],
        .leaf ⟨"$in", .compare .notEqual .null⟩]) := by
  rfl

end SameValue

end FilterQuery
