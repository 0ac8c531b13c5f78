import FilterQuery.Proofs.Decoding
import FilterQuery.Proofs.Keying
import FilterQuery.Proofs.Relabeling
import Mathlib.Logic.Relation

/-!
# What a configuration declares

Settings are read in four places of a document: the names to sort by, the names to filter by, and
two defaults, each of which goes by two names. So a document may be put in another order, hold other
entries, and give a default under its other name, and its settings stay (`settings_of_edits`). What
it may not do is give a default under both names. The documents that are meant have no key twice,
and no text is read as another one, so all this holds of texts as well (`ofText?_of_edits`,
`load_of_both`).
-/

namespace FilterQuery

/-- The order of pairs makes no difference to their renaming, if no name comes twice. -/
theorem Renaming.ofList_of_perm {pairs others : List (String × String)} (h : pairs.Perm others)
    (hn : (Entries.keys pairs).Nodup) : ofList others = ofList pairs := by
  -- two pairs may change places: they rename different names, or are the same pair
  refine (h.foldl_eq' (fun p hp q hq r => ext_find? fun name => ?_) empty).symm
  by_cases hpq : p.1 = q.1
  · rw [List.inj_on_of_nodup_map hn hp hq hpq]
  · simp only [find?_insert]
    split_ifs with hp' hq'
    · exact absurd (hq'.trans hp'.symm) hpq
    · rfl
    · rfl
    · rfl

namespace Settings

variable {document others front back entries : Entries Toml} {name other key : String}
  {value : Toml} {s : Settings}

/-- The names that are read in a document. -/
def declared : List String := ["sort_mappings", "condition_mappings", "defaults"]

/-- The names that are read in a table of defaults, each with the other name of its default. -/
def spellings : List (String × String) :=
  [("where", "where_clause"), ("where_clause", "where"),
    ("order_by", "orderBy"), ("orderBy", "order_by")]

theorem ofDocument?_eq_some_iff :
    ofDocument? document = some s ↔
      renamingOf? "sort_mappings" document = some s.sortNames ∧
        renamingOf? "condition_mappings" document = some s.conditionNames ∧
          defaultsOf? document = some (s.defaultFilter, s.defaultOrder) := by
  obtain ⟨sortNames, conditionNames, filter, order⟩ := s
  rw [ofDocument?]
  rcases renamingOf? "sort_mappings" document with _ | r
  · simp
  rcases renamingOf? "condition_mappings" document with _ | r'
  · simp
  rcases defaultsOf? document with _ | ⟨d, d'⟩ <;> simp

theorem keys_of_mapM {pairs : List (String × String)}
    (h : List.Forall₂ (fun entry pair => (string? entry.2).map (entry.1, ·) = some pair)
      entries pairs) : Entries.keys pairs = Entries.keys entries := by
  induction h with
  | nil => rfl
  | cons hp _ ih =>
    obtain ⟨_, -, rfl⟩ := Option.map_eq_some_iff.1 hp
    exact congrArg (List.cons _) ih

/-- The order in which a table gives its names makes no difference. -/
theorem renaming?_of_perm {r : Renaming} (h : entries.Perm others)
    (hn : (Entries.keys entries).Nodup) (hr : renaming? entries = some r) :
    renaming? others = some r := by
  obtain ⟨pairs, hpairs, rfl⟩ := Option.map_eq_some_iff.1 hr
  obtain ⟨pairs', hpairs', hperm⟩ := List.perm_comp_forall₂ h.symm (mapM_eq_some_iff.1 hpairs)
  have hkeys : (Entries.keys pairs').Nodup := by
    rw [keys_of_mapM hpairs']
    exact Entries.nodup_keys_of_perm h hn
  rw [renaming?, mapM_eq_some_iff.2 hpairs', Option.map_some,
    Renaming.ofList_of_perm hperm hkeys]

theorem renamingOf?_of_ne (h : name ≠ key) :
    renamingOf? key (front ++ (name, value) :: back) = renamingOf? key (front ++ back) := by
  rw [renamingOf?, Entries.find?_of_ne h, renamingOf?]

theorem renamingOf?_middle (h : name ∉ Entries.keys (front ++ back)) :
    renamingOf? name (front ++ (name, value) :: back) = (entries? value).bind renaming? := by
  rw [renamingOf?, Entries.find?_middle h]

theorem defaultsOf?_of_ne (h : name ≠ "defaults") :
    defaultsOf? (front ++ (name, value) :: back) = defaultsOf? (front ++ back) := by
  rw [defaultsOf?, Entries.find?_of_ne h, defaultsOf?]

theorem defaultsOf?_middle (h : "defaults" ∉ Entries.keys (front ++ back)) :
    defaultsOf? (front ++ ("defaults", value) :: back) = defaults? value := by
  rw [defaultsOf?, Entries.find?_middle h]

/-- Entries under other names say nothing. -/
theorem ofDocument?_congr
    (h : ∀ name ∈ declared, Entries.find? name others = Entries.find? name document) :
    ofDocument? others = ofDocument? document := by
  simp only [declared, List.forall_mem_cons, List.not_mem_nil, false_implies, implies_true,
    and_true] at h
  simp only [ofDocument?, renamingOf?, defaultsOf?, h]

/-- Two spellings are of one default, or have no name in common. -/
theorem spellings_cases : ∀ p ∈ spellings, ∀ q ∈ spellings,
    q = p ∨ q = p.swap ∨ p.1 ≠ q.1 ∧ p.1 ≠ q.2 ∧ p.2 ≠ q.1 ∧ p.2 ≠ q.2 := by
  decide

theorem defaultOf?_comm (name other : String) (entries : Entries Toml) :
    defaultOf? name other entries = defaultOf? other name entries := by
  rw [defaultOf?, defaultOf?]
  rcases Entries.find? name entries with _ | v <;> rcases Entries.find? other entries with _ | w <;>
    rfl

theorem defaultOf?_eq_none_iff : defaultOf? name other entries = none ↔
    name ∈ Entries.keys entries ∧ other ∈ Entries.keys entries := by
  rw [← not_iff_not, not_and_or, ← Entries.find?_eq_none_iff, ← Entries.find?_eq_none_iff,
    defaultOf?]
  rcases Entries.find? name entries with _ | v <;> rcases Entries.find? other entries with _ | w <;>
    simp

theorem defaultOf?_congr (h : Entries.find? name others = Entries.find? name entries)
    (h' : Entries.find? key others = Entries.find? key entries) :
    defaultOf? name key others = defaultOf? name key entries := by
  rw [defaultOf?, h, h', defaultOf?]

/-- A default is the same under its other name. -/
theorem defaultOf?_respelled (hne : name ≠ other) (hname : name ∉ Entries.keys (front ++ back))
    (hother : other ∉ Entries.keys (front ++ back)) :
    defaultOf? name other (front ++ (other, value) :: back) =
      defaultOf? name other (front ++ (name, value) :: back) := by
  rw [defaultOf?, Entries.find?_of_ne hne.symm, Entries.find?_eq_none_iff.2 hname,
    Entries.find?_middle hother, defaultOf?, Entries.find?_middle hname, Entries.find?_of_ne hne,
    Entries.find?_eq_none_iff.2 hother]

/-- Under the other name of one default, the value says the same of all defaults. -/
theorem defaultOf?_of_spelling (h : (name, other) ∈ spellings) (hne : name ≠ other)
    (hname : name ∉ Entries.keys (front ++ back)) (hother : other ∉ Entries.keys (front ++ back)) :
    ∀ p ∈ spellings, defaultOf? p.1 p.2 (front ++ (other, value) :: back) =
      defaultOf? p.1 p.2 (front ++ (name, value) :: back) := by
  intro p hp
  have hsame : defaultOf? name other (front ++ (other, value) :: back) =
      defaultOf? name other (front ++ (name, value) :: back) :=
    defaultOf?_respelled hne hname hother
  rcases spellings_cases _ h p hp with rfl | rfl | ⟨h₁, h₂, h₃, h₄⟩
  · exact hsame
  · rw [Prod.fst_swap, Prod.snd_swap, defaultOf?_comm, hsame, defaultOf?_comm]
  · exact defaultOf?_congr (by rw [Entries.find?_of_ne h₃, Entries.find?_of_ne h₁])
      (by rw [Entries.find?_of_ne h₄, Entries.find?_of_ne h₂])

theorem defaults?_table : defaults? (.table entries) =
    (defaultOf? "where" "where_clause" entries).bind fun filter =>
      (defaultOf? "order_by" "orderBy" entries).bind fun order => some (filter, order) := rfl

theorem defaults?_table_eq_some {p : Option Json × Option Json} :
    defaults? (.table entries) = some p ↔
      defaultOf? "where" "where_clause" entries = some p.1 ∧
        defaultOf? "order_by" "orderBy" entries = some p.2 := by
  obtain ⟨filter, order⟩ := p
  rw [defaults?_table]
  rcases defaultOf? "where" "where_clause" entries with _ | d
  · simp
  · rcases defaultOf? "order_by" "orderBy" entries with _ | d' <;> simp

/-- A table of defaults is refused if it has both names of a default, and only then. -/
theorem defaults?_table_eq_none : defaults? (.table entries) = none ↔
    ∃ p ∈ spellings, p.1 ∈ Entries.keys entries ∧ p.2 ∈ Entries.keys entries := by
  have hpair : defaults? (.table entries) = none ↔
      defaultOf? "where" "where_clause" entries = none ∨
        defaultOf? "order_by" "orderBy" entries = none := by
    rw [defaults?_table]
    rcases defaultOf? "where" "where_clause" entries with _ | d
    · simp
    · rcases defaultOf? "order_by" "orderBy" entries with _ | d' <;> simp
  rw [hpair, defaultOf?_eq_none_iff, defaultOf?_eq_none_iff]
  constructor
  · rintro (h | h)
    · exact ⟨("where", "where_clause"), by decide, h⟩
    · exact ⟨("order_by", "orderBy"), by decide, h⟩
  · rintro ⟨p, hp, h⟩
    simp only [spellings, List.mem_cons, List.not_mem_nil, or_false] at hp
    rcases hp with rfl | rfl | rfl | rfl
    · exact .inl h
    · exact .inl h.symm
    · exact .inr h
    · exact .inr h.symm

/-- A table of defaults in another order, with one more entry, or with another name for a
default. -/
inductive DefaultsEdit : Entries Toml → Entries Toml → Prop
  | reorder {entries others : Entries Toml} (h : entries.Perm others) : DefaultsEdit entries others
  | add {front back : Entries Toml} {key : String} (value : Toml)
    (hk : key ∉ spellings.map Prod.fst) (hn : key ∉ Entries.keys (front ++ back)) :
    DefaultsEdit (front ++ back) (front ++ (key, value) :: back)
  | respell {front back : Entries Toml} {name other : String} {value : Toml}
    (h : (name, other) ∈ spellings) :
    DefaultsEdit (front ++ (name, value) :: back) (front ++ (other, value) :: back)

/-- A document in another order, with one more entry, with the names to sort or to filter by in
another order, or with another table of the same defaults. -/
inductive Edit : Entries Toml → Entries Toml → Prop
  | reorder {document others : Entries Toml} (h : document.Perm others) : Edit document others
  | add {front back : Entries Toml} {key : String} (value : Toml) (hk : key ∉ declared)
    (hn : key ∉ Entries.keys (front ++ back)) :
    Edit (front ++ back) (front ++ (key, value) :: back)
  | names {front back entries others : Entries Toml} {name : String}
    (hname : name = "sort_mappings" ∨ name = "condition_mappings") (h : entries.Perm others) :
    Edit (front ++ (name, .table entries) :: back) (front ++ (name, .table others) :: back)
  | defaults {front back entries others : Entries Toml} (h : DefaultsEdit entries others) :
    Edit (front ++ ("defaults", .table entries) :: back)
      (front ++ ("defaults", .table others) :: back)

/-- No key comes twice in the document, nor in a table under a name that is read. -/
structure IsKeyed (document : Entries Toml) : Prop where
  keys : (Entries.keys document).Nodup
  tables : ∀ name ∈ declared, ∀ entries, (name, .table entries) ∈ document →
    (Entries.keys entries).Nodup

/-- Where a default is given under one of its names, its other name is free. -/
theorem other_not_mem_keys (h : (name, other) ∈ spellings)
    (hs : defaults? (.table (front ++ (name, value) :: back)) ≠ none) :
    name ≠ other ∧ other ∉ Entries.keys (front ++ back) := by
  have hkeys : ∀ k, k ∈ Entries.keys (front ++ (name, value) :: back) ↔
      k = name ∨ k ∈ Entries.keys (front ++ back) := fun k => by
    simp only [Entries.keys, List.map_append, List.map_cons, List.mem_append, List.mem_cons]
    exact or_left_comm
  have hother : other ∉ Entries.keys (front ++ (name, value) :: back) := fun hm =>
    hs (defaults?_table_eq_none.2 ⟨_, h, (hkeys name).2 (.inl rfl), hm⟩)
  rw [hkeys, not_or] at hother
  exact ⟨Ne.symm hother.1, hother.2⟩

/-- A change of a table of defaults keeps its keys apart and its defaults as they are. -/
theorem DefaultsEdit.defaultOf?_eq (h : DefaultsEdit entries others)
    (hn : (Entries.keys entries).Nodup) (hs : defaults? (.table entries) ≠ none) :
    (Entries.keys others).Nodup ∧ ∀ p ∈ spellings,
      defaultOf? p.1 p.2 others = defaultOf? p.1 p.2 entries := by
  cases h with
  | reorder h =>
    exact ⟨Entries.nodup_keys_of_perm h hn, fun p _ =>
      defaultOf?_congr (Entries.find?_of_perm h hn _) (Entries.find?_of_perm h hn _)⟩
  | @add front back key value hk hfresh =>
    have hne : ∀ p ∈ spellings, key ≠ p.1 ∧ key ≠ p.2 := by
      simp only [spellings, List.map_cons, List.map_nil, List.mem_cons, List.not_mem_nil,
        or_false, not_or] at hk
      simp [spellings, hk]
    exact ⟨Entries.nodup_keys_middle.2 ⟨hfresh, hn⟩, fun p hp =>
      defaultOf?_congr (Entries.find?_of_ne (hne p hp).1) (Entries.find?_of_ne (hne p hp).2)⟩
  | @respell front back name other value hspell =>
    obtain ⟨hname, hrest⟩ := Entries.nodup_keys_middle.1 hn
    -- a table that is not refused has room for the other name
    obtain ⟨hne, hother⟩ := other_not_mem_keys hspell hs
    exact ⟨Entries.nodup_keys_middle.2 ⟨hother, hrest⟩,
      defaultOf?_of_spelling hspell hne hname hother⟩

theorem DefaultsEdit.defaults?_eq_some {p : Option Json × Option Json}
    (h : DefaultsEdit entries others) (hn : (Entries.keys entries).Nodup)
    (hp : defaults? (.table entries) = some p) : defaults? (.table others) = some p := by
  obtain ⟨-, heq⟩ := h.defaultOf?_eq hn (by rw [hp]; nofun)
  rw [defaults?_table_eq_some] at hp ⊢
  rwa [heq _ (by decide : ("where", "where_clause") ∈ spellings),
    heq _ (by decide : ("order_by", "orderBy") ∈ spellings)]

theorem IsKeyed.of_perm (hd : IsKeyed document) (h : document.Perm others) : IsKeyed others where
  keys := Entries.nodup_keys_of_perm h hd.keys
  tables name hname entries hm := hd.tables name hname entries (h.mem_iff.2 hm)

theorem IsKeyed.add (hd : IsKeyed (front ++ back)) (hk : key ∉ declared)
    (hn : key ∉ Entries.keys (front ++ back)) : IsKeyed (front ++ (key, value) :: back) where
  keys := Entries.nodup_keys_middle.2 ⟨hn, hd.keys⟩
  tables name hname entries hm := by
    refine hd.tables name hname entries ?_
    rw [List.mem_append, List.mem_cons] at hm
    rw [List.mem_append]
    rcases hm with hm | hm | hm
    · exact .inl hm
    · rw [Prod.mk.injEq] at hm
      exact absurd (hm.1 ▸ hname) hk
    · exact .inr hm

/-- Another table under one of the names. -/
theorem IsKeyed.replace (hd : IsKeyed (front ++ (name, value) :: back))
    (hn : (Entries.keys others).Nodup) : IsKeyed (front ++ (name, .table others) :: back) where
  keys := by
    have hkeys := hd.keys
    rw [Entries.nodup_keys_middle] at hkeys ⊢
    exact hkeys
  tables key hkey entries hm := by
    rw [List.mem_append, List.mem_cons] at hm
    rcases hm with hm | hm | hm
    · exact hd.tables key hkey entries (by simp [hm])
    · rw [Prod.mk.injEq, Toml.table.injEq] at hm
      rwa [hm.2]
    · exact hd.tables key hkey entries (by simp [hm])

theorem renamingOf?_names {r : Renaming} (hfront : name ∉ Entries.keys (front ++ back))
    (h : entries.Perm others) (hn : (Entries.keys entries).Nodup)
    (hr : renamingOf? key (front ++ (name, .table entries) :: back) = some r) :
    renamingOf? key (front ++ (name, .table others) :: back) = some r := by
  by_cases hkey : name = key
  · subst hkey
    rw [renamingOf?_middle hfront] at hr ⊢
    exact renaming?_of_perm h hn hr
  · rwa [renamingOf?_of_ne hkey] at hr ⊢

theorem defaultsOf?_defaults {p : Option Json × Option Json}
    (hfront : "defaults" ∉ Entries.keys (front ++ back)) (h : DefaultsEdit entries others)
    (hn : (Entries.keys entries).Nodup)
    (hp : defaultsOf? (front ++ ("defaults", .table entries) :: back) = some p) :
    (Entries.keys others).Nodup ∧
      defaultsOf? (front ++ ("defaults", .table others) :: back) = some p := by
  rw [defaultsOf?_middle hfront] at hp ⊢
  exact ⟨(h.defaultOf?_eq hn (by rw [hp]; nofun)).1, h.defaults?_eq_some hn hp⟩

/-- A change of a document keeps its keys apart and its settings as they are. -/
theorem Edit.ofDocument?_eq_some (h : Edit document others) (hd : IsKeyed document)
    (hs : ofDocument? document = some s) : IsKeyed others ∧ ofDocument? others = some s := by
  cases h with
  | reorder h =>
    refine ⟨hd.of_perm h, ?_⟩
    rwa [ofDocument?_congr fun name _ => Entries.find?_of_perm h hd.keys name]
  | @add front back key value hk hn =>
    have hne : ∀ name ∈ declared, key ≠ name := fun name hname h => hk (h ▸ hname)
    refine ⟨hd.add hk hn, ?_⟩
    rwa [ofDocument?_congr fun name hname => Entries.find?_of_ne (hne name hname)]
  | @names front back entries others name hname h =>
    have hdeclared : name ∈ declared := by rcases hname with rfl | rfl <;> decide
    have hne : name ≠ "defaults" := by rcases hname with rfl | rfl <;> decide
    have hn := hd.tables name hdeclared entries (by simp)
    have hfront := (Entries.nodup_keys_middle.1 hd.keys).1
    refine ⟨hd.replace (Entries.nodup_keys_of_perm h hn), ?_⟩
    rw [ofDocument?_eq_some_iff] at hs ⊢
    obtain ⟨hsort, hcondition, hdefaults⟩ := hs
    rw [defaultsOf?_of_ne hne] at hdefaults ⊢
    exact ⟨renamingOf?_names hfront h hn hsort, renamingOf?_names hfront h hn hcondition,
      hdefaults⟩
  | @defaults front back entries others h =>
    have hne : ∀ name ∈ ["sort_mappings", "condition_mappings"], "defaults" ≠ name := by decide
    have hn := hd.tables "defaults" (by decide) entries (by simp)
    have hfront := (Entries.nodup_keys_middle.1 hd.keys).1
    rw [ofDocument?_eq_some_iff] at hs ⊢
    obtain ⟨hsort, hcondition, hdefaults⟩ := hs
    obtain ⟨hothers, hdefaults⟩ := defaultsOf?_defaults hfront h hn hdefaults
    rw [renamingOf?_of_ne (hne _ (by simp))] at hsort hcondition ⊢
    rw [renamingOf?_of_ne (hne _ (by simp))]
    exact ⟨hd.replace hothers, hsort, hcondition, hdefaults⟩

theorem ofDocument?_of_edits (h : Relation.ReflTransGen Edit document others)
    (hd : IsKeyed document) (hs : ofDocument? document = some s) :
    IsKeyed others ∧ ofDocument? others = some s := by
  induction h with
  | refl => exact ⟨hd, hs⟩
  | tail _ hedit ih => exact hedit.ofDocument?_eq_some ih.1 ih.2

theorem ofDocument?_of_both (hd : IsKeyed document) (hm : ("defaults", .table entries) ∈ document)
    (h : ∃ p ∈ spellings, p.1 ∈ Entries.keys entries ∧ p.2 ∈ Entries.keys entries) :
    ofDocument? document = none := by
  have hdefaults : defaultsOf? document = none := by
    rw [defaultsOf?, Entries.find?_eq_some_of_mem hd.keys hm]
    exact defaults?_table_eq_none.2 h
  refine Option.eq_none_iff_forall_ne_some.2 fun s hs => ?_
  obtain ⟨-, -, hs⟩ := ofDocument?_eq_some_iff.1 hs
  rw [hdefaults] at hs
  cases hs

/-- However often a document with settings is changed, its settings stay and still no key comes
twice. A document that gives a default under both of its names has no settings, whatever else it
holds. -/
theorem settings_of_edits :
    (∀ document others s, IsKeyed document → ofDocument? document = some s →
      Relation.ReflTransGen Edit document others →
        IsKeyed others ∧ ofDocument? others = some s) ∧
    ∀ document entries, IsKeyed document → ("defaults", .table entries) ∈ document →
      (∃ p ∈ spellings, p.1 ∈ Entries.keys entries ∧ p.2 ∈ Entries.keys entries) →
        ofDocument? document = none :=
  ⟨fun _ _ _ hd hs h => ofDocument?_of_edits h hd hs, fun _ _ => ofDocument?_of_both⟩

/-- Five changes: another order of the names to sort by, the other name of a default, an entry
beside the defaults, another order of the document, and an entry in front of it. -/
theorem settings_of_edits_of_five :
    let active : Toml := .table [("active", .bool true)]
    let document : Entries Toml :=
      [("sort_mappings", .table [("b", .string "a"), ("a", .string "b")]),
        ("defaults", .table [("where", active), ("order_by", .int 1)])]
    let others : Entries Toml :=
      [("owner", .dateTime "2026-01-01"),
        ("defaults",
          .table [("where_clause", active), ("limit", .float .nan), ("order_by", .int 1)]),
        ("sort_mappings", .table [("a", .string "b"), ("b", .string "a")])]
    let both : Entries Toml := [("defaults", .table [("where_clause", .int 1), ("where", active)])]
    let s : Settings := ⟨.ofList [("a", "b"), ("b", "a")], .empty,
      some (.obj [("active", .bool true)]), some (.int 1)⟩
    IsKeyed document ∧ ofDocument? document = some s ∧
      Relation.ReflTransGen Edit document others ∧ ofDocument? others = some s ∧
      IsKeyed both ∧ ofDocument? both = none := by
  intro active document others both s
  have hkeyed : IsKeyed document := by
    refine ⟨by decide, fun name _ entries hm => ?_⟩
    simp only [document, List.mem_cons, List.not_mem_nil, or_false, Prod.mk.injEq,
      Toml.table.injEq] at hm
    rcases hm with ⟨-, rfl⟩ | ⟨-, rfl⟩ <;> decide
  have hboth : IsKeyed both := by
    refine ⟨by decide, fun name _ entries hm => ?_⟩
    simp only [both, List.mem_cons, List.not_mem_nil, or_false, Prod.mk.injEq,
      Toml.table.injEq] at hm
    obtain ⟨-, rfl⟩ := hm
    decide
  have hs : ofDocument? document = some s := rfl
  let mapped : String × Toml := ("sort_mappings", .table [("a", .string "b"), ("b", .string "a")])
  let spelled : Entries Toml := [("where_clause", active), ("order_by", .int 1)]
  let longer : Entries Toml :=
    [("where_clause", active), ("limit", .float .nan), ("order_by", .int 1)]
  have hmapped : Edit document
      [mapped, ("defaults", .table [("where", active), ("order_by", .int 1)])] :=
    @Edit.names [] _ _ _ _ (.inl rfl) (.swap ..)
  have hspelled : Edit [mapped, ("defaults", .table [("where", active), ("order_by", .int 1)])]
      [mapped, ("defaults", .table spelled)] :=
    @Edit.defaults [mapped] [] _ _
      (@DefaultsEdit.respell [] [("order_by", .int 1)] "where" "where_clause" active (by decide))
  have hlonger : Edit [mapped, ("defaults", .table spelled)]
      [mapped, ("defaults", .table longer)] :=
    @Edit.defaults [mapped] [] _ _ (@DefaultsEdit.add [("where_clause", active)]
      [("order_by", .int 1)] "limit" (.float .nan) (by decide) (by decide))
  have hordered : Edit [mapped, ("defaults", .table longer)]
      [("defaults", .table longer), mapped] :=
    .reorder (.swap ..)
  have howned : Edit [("defaults", .table longer), mapped] others :=
    @Edit.add [] _ "owner" (.dateTime "2026-01-01") (by decide) (by decide)
  have hedits : Relation.ReflTransGen Edit document others :=
    ((((Relation.ReflTransGen.single hmapped).tail hspelled).tail hlonger).tail hordered).tail
      howned
  exact ⟨hkeyed, hs, hedits, (settings_of_edits.1 _ _ s hkeyed hs hedits).2, hboth,
    settings_of_edits.2 _ _ hboth List.mem_cons_self
      ⟨("where", "where_clause"), by decide, by decide, by decide⟩⟩

section Texts

variable {text : String}

theorem isKeyed_of_ofText? (h : Toml.ofText? text = some document) : IsKeyed document := by
  cases Toml.isKeyed_of_ofText? h with
  | table hk h =>
    refine ⟨hk, fun name _ entries hm => ?_⟩
    cases h _ hm with
    | table hk _ => exact hk

/-- A text of a changed document has the settings of a text of the document. -/
theorem ofText?_of_edits {other : String} (hd : Toml.ofText? text = some document)
    (ho : Toml.ofText? other = some others) (h : Relation.ReflTransGen Edit document others)
    (hs : ofText? text = some s) : ofText? other = some s := by
  rw [ofText?, hd, Option.bind_some] at hs
  rw [ofText?, ho, Option.bind_some]
  exact (ofDocument?_of_edits h (isKeyed_of_ofText? hd) hs).2

/-- A file with both names of a default is malformed. -/
theorem load_of_both {file : Contents} (ht : file.text = .ok text)
    (hd : Toml.ofText? text = some document) (hm : ("defaults", .table entries) ∈ document)
    (h : ∃ p ∈ spellings, p.1 ∈ Entries.keys entries ∧ p.2 ∈ Entries.keys entries) :
    load file = .error .malformed := by
  have hnone : ofText? text = none := by
    rw [ofText?, hd, Option.bind_some]
    exact ofDocument?_of_both (isKeyed_of_ofText? hd) hm h
  rw [load, ht]
  simp only [hnone]

end Texts

end Settings

end FilterQuery
