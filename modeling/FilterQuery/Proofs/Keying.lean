import FilterQuery.Proofs.Coalescing
import FilterQuery.Toml.Document

/-!
# Keys that come once

Where no key comes twice, the order of entries makes no difference to what is found in them
(`Entries.find?_of_perm`). The tables of a document are of this kind at all levels
(`Toml.isKeyed_of_ofText?`): an entry is only added under a key that is free, and all else that
happens to a table puts a value in the place of another one.
-/

namespace FilterQuery

namespace Entries

variable {α : Type} {entries others front back : Entries α} {key name : String} {value : α}

theorem keys_append (front back : Entries α) : keys (front ++ back) = keys front ++ keys back :=
  List.map_append

theorem find?_append (key : String) (back : Entries α) : ∀ front : Entries α,
    find? key (front ++ back) = (find? key front).or (find? key back)
  | [] => rfl
  | (k, v) :: rest => by
    rw [List.cons_append, find?, find?, find?_append key back rest]
    split_ifs <;> rfl

theorem mem_of_find?_eq_some : ∀ {entries : Entries α}, find? key entries = some value →
    (key, value) ∈ entries
  | (k, v) :: rest, h => by
    rw [find?] at h
    split_ifs at h with hk
    · rw [← hk, ← Option.some.inj h]
      exact List.mem_cons_self
    · exact List.mem_cons_of_mem _ (mem_of_find?_eq_some h)

theorem find?_eq_some_iff (hn : (keys entries).Nodup) :
    find? key entries = some value ↔ (key, value) ∈ entries :=
  ⟨mem_of_find?_eq_some, find?_eq_some_of_mem hn⟩

theorem find?_eq_none_iff : find? key entries = none ↔ key ∉ keys entries := by
  refine ⟨fun h hm => ?_, find?_eq_none_of_not_mem⟩
  induction entries with
  | nil => simp [keys] at hm
  | cons entry rest ih =>
    rw [find?] at h
    split_ifs at h with hk
    rcases List.mem_cons.1 hm with he | hm
    · exact hk he.symm
    · exact ih h hm

theorem nodup_keys_of_perm (h : entries.Perm others) (hn : (keys entries).Nodup) :
    (keys others).Nodup :=
  (h.map _).nodup_iff.1 hn

/-- The order of entries makes no difference to what is found, if no key comes twice. -/
theorem find?_of_perm (h : entries.Perm others) (hn : (keys entries).Nodup) (key : String) :
    find? key others = find? key entries := by
  ext value
  rw [find?_eq_some_iff hn, find?_eq_some_iff (nodup_keys_of_perm h hn), h.mem_iff]

theorem find?_of_ne (h : name ≠ key) :
    find? key (front ++ (name, value) :: back) = find? key (front ++ back) := by
  rw [find?_append, find?_append, find?, if_neg h]

/-- The key of an entry in the middle stands in no other entry. -/
theorem nodup_keys_middle : (keys (front ++ (name, value) :: back)).Nodup ↔
    name ∉ keys (front ++ back) ∧ (keys (front ++ back)).Nodup := by
  rw [keys_append, keys_append, ← List.nodup_cons]
  exact List.nodup_middle

theorem find?_middle (h : name ∉ keys (front ++ back)) :
    find? name (front ++ (name, value) :: back) = some value := by
  rw [keys_append, List.mem_append, not_or] at h
  rw [find?_append, find?_eq_none_iff.2 h.1, find?, if_pos rfl, Option.none_or]

/-- Entries with a key each of its own, whose values are as `P` says. -/
structure Keyed (P : α → Prop) (entries : Entries α) : Prop where
  keys : (Entries.keys entries).Nodup
  values : ∀ entry ∈ entries, P entry.2

variable {P : α → Prop}

theorem Keyed.nil : Keyed P [] := ⟨.nil, nofun⟩

theorem Keyed.of_find? (h : Keyed P entries) (hf : find? key entries = some value) : P value :=
  h.values _ (mem_of_find?_eq_some hf)

theorem Keyed.concat (h : Keyed P entries) (hf : find? key entries = none) (hv : P value) :
    Keyed P (entries ++ [(key, value)]) where
  keys := by
    rw [nodup_keys_middle, List.append_nil]
    exact ⟨find?_eq_none_iff.1 hf, h.keys⟩
  values entry hm := by
    rcases List.mem_append.1 hm with hm | hm
    · exact h.values entry hm
    · rwa [List.mem_singleton.1 hm]

theorem Keyed.filter (h : Keyed P entries) (p : String × α → Bool) :
    Keyed P (entries.filter p) where
  keys := h.keys.sublist (List.filter_sublist.map _)
  values entry hm := h.values entry (List.mem_of_mem_filter hm)

theorem mem_insert {entry : String × α} : ∀ {entries : Entries α},
    entry ∈ insert key value entries → entry.2 = value ∨ entry ∈ entries
  | [], hm => .inl (by rw [List.mem_singleton.1 hm])
  | (k, v) :: rest, hm => by
    rw [insert] at hm
    split_ifs at hm
    · rcases List.mem_cons.1 hm with rfl | hm
      · exact .inl rfl
      · exact .inr (List.mem_cons_of_mem _ hm)
    · rcases List.mem_cons.1 hm with rfl | hm
      · exact .inr List.mem_cons_self
      · exact (mem_insert hm).imp_right (List.mem_cons_of_mem _)

theorem Keyed.insert (h : Keyed P entries) (hv : P value) :
    Keyed P (Entries.insert key value entries) where
  keys := by
    by_cases hk : key ∈ Entries.keys entries
    · rw [keys_insert_of_mem hk]
      exact h.keys
    · rw [keys_insert_of_not_mem hk, List.nodup_append_comm]
      exact List.nodup_cons.2 ⟨hk, h.keys⟩
  values entry hm := by
    rcases mem_insert hm with he | hm
    · rwa [he]
    · exact h.values entry hm

theorem keyed_cons : Keyed P ((key, value) :: entries) ↔
    key ∉ keys entries ∧ P value ∧ Keyed P entries := by
  refine ⟨fun ⟨hk, hv⟩ => ?_, fun ⟨hk, hv, h⟩ => ⟨List.nodup_cons.2 ⟨hk, h.keys⟩, ?_⟩⟩
  · obtain ⟨hkey, hkeys⟩ := List.nodup_cons.1 hk
    obtain ⟨hvalue, hvalues⟩ := List.forall_mem_cons.1 hv
    exact ⟨hkey, hvalue, hkeys, hvalues⟩
  · exact List.forall_mem_cons.2 ⟨hv, h.values⟩

end Entries

namespace Toml

open Entries (Keyed)

/-- No key comes twice in a table of the value, on any level. -/
inductive IsKeyed : Toml → Prop
  | string (s : String) : IsKeyed (.string s)
  | int (n : Int) : IsKeyed (.int n)
  | float (x : Binary64) : IsKeyed (.float x)
  | bool (b : Bool) : IsKeyed (.bool b)
  | dateTime (text : String) : IsKeyed (.dateTime text)
  | array {items : List Toml} (h : ∀ item ∈ items, IsKeyed item) : IsKeyed (.array items)
  | table {entries : List (String × Toml)} (hk : (Entries.keys entries).Nodup)
    (h : ∀ entry ∈ entries, IsKeyed entry.2) : IsKeyed (.table entries)

/-- No key comes twice in what stands under a name, on any level. -/
inductive Node.IsKeyed : Node → Prop
  | value {v : Toml} (h : v.IsKeyed) : IsKeyed (.value v)
  | table {origin : Origin} {entries : List (String × Node)} (hk : (Entries.keys entries).Nodup)
    (h : ∀ entry ∈ entries, IsKeyed entry.2) : IsKeyed (.table origin entries)
  | tables {elements : List (List (String × Node))}
    (hk : ∀ entries ∈ elements, (Entries.keys entries).Nodup)
    (h : ∀ entries ∈ elements, ∀ entry ∈ entries, IsKeyed entry.2) : IsKeyed (.tables elements)

namespace Node

theorem isKeyed_table {origin : Origin} {entries : Entries Node} :
    (table origin entries).IsKeyed ↔ Keyed IsKeyed entries :=
  ⟨fun h => by cases h with | table hk h => exact ⟨hk, h⟩, fun ⟨hk, h⟩ => .table hk h⟩

theorem isKeyed_tables {elements : List (Entries Node)} :
    (tables elements).IsKeyed ↔ ∀ entries ∈ elements, Keyed IsKeyed entries :=
  ⟨fun h => by cases h with | tables hk h => exact fun entries hm => ⟨hk entries hm, h entries hm⟩,
    fun h => .tables (fun entries hm => (h entries hm).keys)
      fun entries hm => (h entries hm).values⟩

theorem isKeyed_tables_concat {elements : List (Entries Node)} {entries : Entries Node}
    (h : ∀ entries ∈ elements, Keyed IsKeyed entries) (he : Keyed IsKeyed entries) :
    (tables (elements ++ [entries])).IsKeyed :=
  isKeyed_tables.2 (List.forall_mem_append.2 ⟨h, List.forall_mem_singleton.2 he⟩)

theorem keys_entriesToToml : ∀ entries : Entries Node,
    Entries.keys (entriesToToml entries) = Entries.keys entries
  | [] => rfl
  | (key, _) :: rest => congrArg (List.cons key) (keys_entriesToToml rest)

mutual

theorem isKeyed_toToml : ∀ node : Node, node.IsKeyed → node.toToml.IsKeyed
  | .value v, h => by
    cases h with
    | value h => exact h
  | .table origin entries, h => by
    have hentries := keyed_entriesToToml entries (isKeyed_table.1 h)
    exact .table hentries.keys hentries.values
  | .tables elements, h => .array (isKeyed_elementsToToml elements (isKeyed_tables.1 h))

theorem keyed_entriesToToml : ∀ entries : Entries Node, Keyed IsKeyed entries →
    Keyed Toml.IsKeyed (entriesToToml entries)
  | [], _ => .nil
  | (key, node) :: rest, h => by
    obtain ⟨hkey, hnode, hrest⟩ := Entries.keyed_cons.1 h
    rw [entriesToToml, Entries.keyed_cons, keys_entriesToToml]
    exact ⟨hkey, isKeyed_toToml node hnode, keyed_entriesToToml rest hrest⟩

theorem isKeyed_elementsToToml : ∀ elements : List (Entries Node),
    (∀ entries ∈ elements, Keyed IsKeyed entries) →
      ∀ item ∈ elementsToToml elements, item.IsKeyed
  | [], _ => nofun
  | entries :: rest, h => by
    obtain ⟨hentries, hrest⟩ := List.forall_mem_cons.1 h
    have htable := keyed_entriesToToml entries hentries
    rw [elementsToToml, List.forall_mem_cons]
    exact ⟨.table htable.keys htable.values, isKeyed_elementsToToml rest hrest⟩

end

end Node

section Changes

variable {assignments : List Assignment}

/-- In an array of tables the last one may be changed. -/
theorem keyed_insert_tables {elements : List (Entries Node)} {entries inner : Entries Node}
    {name : String} (h : Keyed Node.IsKeyed entries)
    (hf : Entries.find? name entries = some (.tables elements)) (hi : Keyed Node.IsKeyed inner) :
    Keyed Node.IsKeyed (Entries.insert name (.tables (elements.dropLast ++ [inner])) entries) := by
  have helements := Node.isKeyed_tables.1 (h.of_find? hf)
  exact h.insert (Node.isKeyed_tables_concat
    (fun entries hm => helements entries (List.mem_of_mem_dropLast hm)) hi)

/-- What the change makes of a table without a second entry of any key has none either. -/
def KeepsKeys (change : Entries Node → Option (Entries Node)) : Prop :=
  ∀ entries, Keyed Node.IsKeyed entries → ∀ changed, change entries = some changed →
    Keyed Node.IsKeyed changed

theorem keepsKeys_assign (name : String) {value : Toml} (hv : value.IsKeyed) :
    ∀ (parents : List String) (allowed : Bool), KeepsKeys (assign allowed name value parents)
  | [], allowed, entries, h, changed, hc => by
    rw [assign, addValue] at hc
    split_ifs at hc with ha
    rw [← Option.some.inj hc]
    exact h.concat ha.2 (.value hv)
  | parent :: parents, allowed, entries, h, changed, hc => by
    have ih := keepsKeys_assign name hv parents
    rw [assign] at hc
    -- the way leads through a new table, a table, the last of several tables, or nowhere
    split at hc
    · next hf =>
      obtain ⟨inner, hinner, rfl⟩ := Option.map_eq_some_iff.1 hc
      exact h.concat hf (Node.isKeyed_table.2 (ih true [] .nil inner hinner))
    · next origin entries hf =>
      split_ifs at hc
      obtain ⟨inner, hinner, rfl⟩ := Option.map_eq_some_iff.1 hc
      have hentries := Node.isKeyed_table.1 (h.of_find? hf)
      exact h.insert (Node.isKeyed_table.2 (ih _ _ hentries inner hinner))
    · next elements hf =>
      split at hc
      · cases hc
      · next last hlast =>
        obtain ⟨inner, hinner, rfl⟩ := Option.map_eq_some_iff.1 hc
        have hentries := Node.isKeyed_tables.1 (h.of_find? hf) last (List.mem_of_getLast? hlast)
        exact keyed_insert_tables h hf (ih _ _ hentries inner hinner)
    · cases hc

theorem keyed_foldlM {α : Type} {f : Entries Node → α → Option (Entries Node)} :
    ∀ {xs : List α} {entries changed : Entries Node}, (∀ x ∈ xs, KeepsKeys (f · x)) →
      Keyed Node.IsKeyed entries → xs.foldlM f entries = some changed →
        Keyed Node.IsKeyed changed
  | [], entries, changed, _, h, hc => by rwa [← Option.some.inj hc]
  | x :: xs, entries, changed, hf, h, hc => by
    obtain ⟨hx, hxs⟩ := List.forall_mem_cons.1 hf
    rw [List.foldlM_cons, Option.bind_eq_bind, Option.bind_eq_some_iff] at hc
    obtain ⟨between, hbetween, hc⟩ := hc
    exact keyed_foldlM hxs (hx entries h between hbetween) hc

theorem keepsKeys_assignAll (ha : ∀ a ∈ assignments, a.value.IsKeyed) :
    KeepsKeys (assignAll · assignments) :=
  fun _ h _ hc => keyed_foldlM (fun a hm => keepsKeys_assign _ (ha a hm) _ _) h hc

theorem keepsKeys_under {change : Entries Node → Option (Entries Node)}
    (hchange : KeepsKeys change) : ∀ parents : List String, KeepsKeys (under change parents)
  | [], entries, h, changed, hc => hchange entries h changed hc
  | parent :: parents, entries, h, changed, hc => by
    have ih := keepsKeys_under hchange parents
    rw [under] at hc
    split at hc
    · next hf =>
      obtain ⟨inner, hinner, rfl⟩ := Option.map_eq_some_iff.1 hc
      exact h.concat hf (Node.isKeyed_table.2 (ih [] .nil inner hinner))
    · next origin entries hf =>
      obtain ⟨inner, hinner, rfl⟩ := Option.map_eq_some_iff.1 hc
      have hentries := Node.isKeyed_table.1 (h.of_find? hf)
      exact h.insert (Node.isKeyed_table.2 (ih _ hentries inner hinner))
    · next elements hf =>
      split at hc
      · cases hc
      · next last hlast =>
        obtain ⟨inner, hinner, rfl⟩ := Option.map_eq_some_iff.1 hc
        have hentries := Node.isKeyed_tables.1 (h.of_find? hf) last (List.mem_of_getLast? hlast)
        exact keyed_insert_tables h hf (ih _ hentries inner hinner)
    · cases hc

theorem keepsKeys_putTable (name : String) (ha : ∀ a ∈ assignments, a.value.IsKeyed) :
    KeepsKeys (putTable name assignments) := by
  intro entries h changed hc
  rw [putTable] at hc
  split at hc
  · next hf =>
    obtain ⟨inner, hinner, rfl⟩ := Option.map_eq_some_iff.1 hc
    exact h.concat hf (Node.isKeyed_table.2 (keepsKeys_assignAll ha [] .nil inner hinner))
  · next entries hf =>
    obtain ⟨inner, hinner, rfl⟩ := Option.map_eq_some_iff.1 hc
    have hentries := Node.isKeyed_table.1 (h.of_find? hf)
    refine (h.filter _).concat ?_ (Node.isKeyed_table.2
      (keepsKeys_assignAll ha _ hentries inner hinner))
    -- the entry itself has just been taken out
    rw [Entries.find?_eq_none_iff]
    intro hm
    obtain ⟨entry, hentry, hkey⟩ := List.mem_map.1 hm
    simp [hkey] at hentry
  · cases hc

theorem keepsKeys_appendTable (name : String) (ha : ∀ a ∈ assignments, a.value.IsKeyed) :
    KeepsKeys (appendTable name assignments) := by
  intro entries h changed hc
  rw [appendTable, Option.bind_eq_bind, Option.bind_eq_some_iff] at hc
  obtain ⟨inner, hinner, hc⟩ := hc
  have hinner := keepsKeys_assignAll ha [] .nil inner hinner
  split at hc
  · next hf =>
    rw [← Option.some.inj hc]
    exact h.concat hf (Node.isKeyed_tables.2 (List.forall_mem_singleton.2 hinner))
  · next elements hf =>
    rw [← Option.some.inj hc]
    exact h.insert (Node.isKeyed_tables_concat (Node.isKeyed_tables.1 (h.of_find? hf)) hinner)
  · cases hc

theorem keepsKeys_addSection {s : Section} (hs : ∀ a ∈ s.assignments, a.value.IsKeyed) :
    KeepsKeys (addSection · s) := by
  intro entries h changed hc
  unfold addSection at hc
  split_ifs at hc
  · exact keepsKeys_under (keepsKeys_appendTable _ hs) _ entries h changed hc
  · exact keepsKeys_under (keepsKeys_putTable _ hs) _ entries h changed hc

theorem keyed_build {sections : List Section} {entries : Entries Toml}
    (ha : ∀ a ∈ assignments, a.value.IsKeyed)
    (hs : ∀ s ∈ sections, ∀ a ∈ s.assignments, a.value.IsKeyed)
    (h : build assignments sections = some entries) : Keyed IsKeyed entries := by
  simp only [build, Option.bind_eq_bind, Option.bind_eq_some_iff] at h
  obtain ⟨front, hfront, whole, hwhole, h⟩ := h
  rw [← Option.some.inj h]
  refine Node.keyed_entriesToToml whole ?_
  exact keyed_foldlM (fun s hm => keepsKeys_addSection (hs s hm))
    (keepsKeys_assignAll ha [] .nil front hfront) hwhole

end Changes

section Reading

variable {value : Reader Toml}

/-- What the reader finds is as `P` says. -/
def Yields {α : Type} (reader : Reader α) (P : α → Prop) : Prop :=
  ∀ cs x rest, reader cs = some (x, rest) → P x

theorem isKeyed_of_intOf? {n : Int} {v : Toml} (h : intOf? n = some v) : v.IsKeyed := by
  rw [intOf?] at h
  split_ifs at h
  rw [← Option.some.inj h]
  exact .int n

theorem isKeyed_of_floatOfDigits? {negative : Bool} {whole fraction : List Char} {exponent : Int}
    {v : Toml} (h : floatOfDigits? negative whole fraction exponent = some v) : v.IsKeyed := by
  rw [floatOfDigits?] at h
  split at h
  · cases h
  · rw [← Option.some.inj h]
    exact .float _

theorem yields_readUnsigned (negative : Bool) : Yields (readUnsigned negative) IsKeyed := by
  intro cs v rest h
  simp only [readUnsigned, Option.bind_eq_bind, Option.bind_eq_some_iff, Prod.exists] at h
  obtain ⟨whole, _, -, fraction, _, -, exponent, _, -, h⟩ := h
  split at h
  · obtain ⟨w, hw, hv⟩ := Option.bind_eq_some_iff.1 h
    cases hv
    exact isKeyed_of_intOf? hw
  · obtain ⟨w, hw, hv⟩ := Option.bind_eq_some_iff.1 h
    cases hv
    exact isKeyed_of_floatOfDigits? hw

theorem yields_readInBase (base : Nat) : Yields (readInBase base) IsKeyed := by
  intro cs v rest h
  simp only [readInBase, Option.bind_eq_bind, Option.bind_eq_some_iff, Prod.exists] at h
  obtain ⟨_, _, -, w, hw, hv⟩ := h
  cases hv
  exact isKeyed_of_intOf? hw

theorem yields_readSpecial (negative : Bool) : Yields (readSpecial negative) IsKeyed := by
  intro cs v rest h
  unfold readSpecial at h
  split at h <;> cases h
  · exact .float _
  · exact .float _

theorem yields_readNumber : Yields readNumber IsKeyed := by
  intro cs v rest h
  unfold readNumber at h
  split at h
  · exact yields_readInBase _ _ _ _ h
  · exact yields_readInBase _ _ _ _ h
  · exact yields_readInBase _ _ _ _ h
  · dsimp only at h
    split at h
    · next hspecial =>
      cases h
      exact yields_readSpecial _ _ _ _ hspecial
    · exact yields_readUnsigned _ _ _ _ h

theorem yields_readDateTime : Yields readDateTime IsKeyed := by
  intro cs v rest h
  unfold readDateTime at h
  split at h
  · obtain ⟨_, -, hv⟩ := Option.map_eq_some_iff.1 h
    cases hv
    exact .dateTime _
  · split at h
    · cases h
      exact .dateTime _
    · obtain ⟨_, -, hv⟩ := Option.map_eq_some_iff.1 h
      cases hv
      exact .dateTime _

theorem yields_readScalar : Yields readScalar IsKeyed := by
  intro cs v rest h
  unfold readScalar at h
  split at h
  · cases h
    exact .bool true
  · cases h
    exact .bool false
  · split at h
    · cases h
      exact .string _
    · split at h
      · next hdate =>
        cases h
        exact yields_readDateTime _ _ _ hdate
      · exact yields_readNumber _ _ _ h

theorem yields_readItems {item : Reader Toml} (hitem : Yields item IsKeyed) :
    ∀ fuel, Yields (readItems item fuel) fun items => ∀ v ∈ items, v.IsKeyed
  | 0, cs, items, rest, h => nomatch h
  | fuel + 1, cs, items, rest, h => by
    simp only [readItems, Option.bind_eq_bind, Option.bind_eq_some_iff] at h
    obtain ⟨front, -, h⟩ := h
    split at h
    · cases h
      nofun
    · simp only [Option.bind_eq_some_iff, Prod.exists] at h
      obtain ⟨v, behind, hv, after, -, h⟩ := h
      have hv := hitem _ _ _ hv
      split at h
      · simp only [Option.bind_eq_some_iff, Prod.exists] at h
        obtain ⟨values, _, hvalues, h⟩ := h
        cases h
        exact List.forall_mem_cons.2 ⟨hv, yields_readItems hitem fuel _ _ _ hvalues⟩
      · cases h
        exact List.forall_mem_singleton.2 hv
      · cases h

theorem yields_readAssignment (hvalue : Yields value IsKeyed) :
    Yields (readAssignment value) fun a => a.value.IsKeyed := by
  intro cs a rest h
  simp only [readAssignment, Option.bind_eq_bind, Option.bind_eq_some_iff, Prod.exists] at h
  obtain ⟨_, _, -, _, -, v, _, hv, h⟩ := h
  cases h
  exact hvalue _ _ _ hv

theorem yields_readInline (hvalue : Yields value IsKeyed) :
    ∀ fuel, Yields (readInline value fuel) fun assignments => ∀ a ∈ assignments, a.value.IsKeyed
  | 0, cs, assignments, rest, h => nomatch h
  | fuel + 1, cs, assignments, rest, h => by
    simp only [readInline, Option.bind_eq_bind, Option.bind_eq_some_iff, Prod.exists] at h
    obtain ⟨first, _, hfirst, h⟩ := h
    have hfirst := yields_readAssignment hvalue _ _ _ hfirst
    split at h
    · simp only [Option.bind_eq_some_iff, Prod.exists] at h
      obtain ⟨others, _, hothers, h⟩ := h
      cases h
      exact List.forall_mem_cons.2 ⟨hfirst, yields_readInline hvalue fuel _ _ _ hothers⟩
    · cases h
      exact List.forall_mem_singleton.2 hfirst
    · cases h

theorem yields_readInlineTable (hvalue : Yields value IsKeyed) :
    Yields (readInlineTable value) IsKeyed := by
  intro cs v rest h
  unfold readInlineTable at h
  split at h
  · cases h
    exact .table .nil nofun
  · simp only [Option.bind_eq_bind, Option.bind_eq_some_iff, Prod.exists] at h
    obtain ⟨assignments, _, hassignments, entries, hentries, h⟩ := h
    cases h
    have ha := yields_readInline hvalue _ _ _ _ hassignments
    have hkeyed := Node.keyed_entriesToToml _ (keepsKeys_assignAll ha [] .nil entries hentries)
    exact .table hkeyed.keys hkeyed.values

theorem yields_readValue : ∀ depth, Yields (readValue depth) IsKeyed
  | 0, cs, v, rest, h => yields_readScalar cs v rest h
  | depth + 1, cs, v, rest, h => by
    have ih := yields_readValue depth
    unfold readValue at h
    split at h
    · obtain ⟨⟨items, _⟩, hitems, h⟩ := Option.map_eq_some_iff.1 h
      cases h
      exact .array (yields_readItems ih _ _ _ _ hitems)
    · exact yields_readInlineTable ih _ _ _ h
    · exact yields_readScalar _ _ _ h

end Reading

/-- No key comes twice in the value that the line gives a name to, if it does. -/
def Line.IsKeyed : Line → Prop
  | .assignment a => a.value.IsKeyed
  | .header _ _ => True

theorem yields_readLine : Yields readLine Line.IsKeyed := by
  intro cs line rest h
  unfold readLine at h
  -- a line is what is found in front of its end
  split at h <;> obtain ⟨⟨found, _⟩, hfound, h⟩ := Option.bind_eq_some_iff.1 h <;>
    obtain ⟨_, -, h⟩ := Option.bind_eq_some_iff.1 h <;> cases h <;>
    obtain ⟨⟨a, _⟩, ha, h⟩ := Option.map_eq_some_iff.1 hfound <;> cases h
  · trivial
  · trivial
  · exact yields_readAssignment (yields_readValue _) _ _ _ ha

theorem isKeyed_of_readLines : ∀ (fuel : Nat) {cs : List Char} {lines : List Line},
    readLines fuel cs = some lines → ∀ line ∈ lines, line.IsKeyed
  | 0, cs, lines, h => nomatch h
  | fuel + 1, cs, lines, h => by
    rw [readLines] at h
    split at h
    · cases h
      nofun
    · split_ifs at h
      · obtain ⟨_, -, h⟩ := Option.bind_eq_some_iff.1 h
        exact isKeyed_of_readLines fuel h
      · simp only [Option.bind_eq_bind, Option.bind_eq_some_iff, Prod.exists] at h
        obtain ⟨line, _, hline, others, hothers, h⟩ := h
        cases h
        exact List.forall_mem_cons.2
          ⟨yields_readLine _ _ _ hline, isKeyed_of_readLines fuel hothers⟩

theorem isKeyed_sections : ∀ {lines : List Line}, (∀ line ∈ lines, line.IsKeyed) →
    (∀ a ∈ (sections lines).1, a.value.IsKeyed) ∧
      ∀ s ∈ (sections lines).2, ∀ a ∈ s.assignments, a.value.IsKeyed
  | [], _ => ⟨nofun, nofun⟩
  | .assignment a :: rest, h => by
    obtain ⟨ha, hrest⟩ := List.forall_mem_cons.1 h
    obtain ⟨hfront, hsections⟩ := isKeyed_sections hrest
    exact ⟨List.forall_mem_cons.2 ⟨ha, hfront⟩, hsections⟩
  | .header path inArray :: rest, h => by
    obtain ⟨-, hrest⟩ := List.forall_mem_cons.1 h
    obtain ⟨hfront, hsections⟩ := isKeyed_sections hrest
    exact ⟨nofun, List.forall_mem_cons.2 ⟨hfront, hsections⟩⟩

/-- In the table of a document no key comes twice, nor in a table that stands in it. -/
theorem isKeyed_of_ofText? {text : String} {entries : Entries Toml}
    (h : ofText? text = some entries) : (table entries).IsKeyed := by
  simp only [ofText?, Option.bind_eq_bind, Option.bind_eq_some_iff] at h
  obtain ⟨lines, hlines, h⟩ := h
  obtain ⟨hfront, hsections⟩ := isKeyed_sections (isKeyed_of_readLines _ hlines)
  have hkeyed := keyed_build hfront hsections h
  exact .table hkeyed.keys hkeyed.values

end Toml

end FilterQuery
