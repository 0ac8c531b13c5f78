import FilterQuery.Settings

/-!
# What changes leave behind

A change of a profile writes to one slot: a default, the name of one sort key, or the hook, which
comes and goes with the parser. Each slot holds what was written to it last, or else what the
settings say (`Profile.holdsLast_changeAll`), and a profile has nothing but its slots
(`Profile.HoldsLast.eq`). So changes of different slots may change places (`select_changed`).
-/

namespace FilterQuery

/-- If each step writes to a part of the state or leaves it as it is, a run leaves what was written
last, or else what was there before. -/
theorem foldl_eq_last {σ α β : Type} {step : σ → β → σ} (get : σ → α) {write : β → Option α}
    (h : ∀ s b, get (step s b) = (write b).getD (get s)) (s : σ) (bs : List β) :
    get (bs.foldl step s) = (bs.filterMap write).getLast?.getD (get s) := by
  induction bs generalizing s with
  | nil => rfl
  | cons b bs ih =>
    rw [List.foldl_cons, ih, h]
    rcases hb : write b with _ | value
    · simp [hb]
    · rcases hl : (bs.filterMap write).getLast? with _ | last <;> simp [hb, hl, List.getLast?_cons]

namespace Profile

/-- What a change can write to. -/
inductive Slot where
  | sortName (source : String)
  | defaultFilter
  | defaultOrder
  | hook
  deriving DecidableEq

namespace Change

def slot : Change → Slot
  | .sortName source _ => .sortName source
  | .defaultFilter _ => .defaultFilter
  | .defaultOrder _ => .defaultOrder
  | .hook _ => .hook
  | .parser _ => .hook

/-- The name that a change gives to `source`. -/
def target? (source : String) : Change → Option String
  | .sortName name target => if name = source then some target else none
  | _ => none

def filter? : Change → Option Json
  | .defaultFilter value => some value
  | _ => none

def order? : Change → Option Json
  | .defaultOrder value => some value
  | _ => none

/-- The hook that a change leaves, if it is one of the hook or of the parser; a parser without a
hook leaves none. -/
def hook? : Change → Option (Option Hook)
  | .hook h => some (some h)
  | .parser p => some p.hook
  | _ => none

end Change

def changeAll (p : Profile) (changes : List Change) : Profile :=
  changes.foldl change p

/-- Each slot of the profile holds what the changes write to it last, or else what the settings say:
their defaults or empty objects, their sort names, and the hook that renames identifiers if there
are names for these. -/
structure HoldsLast (s : Settings) (changes : List Change) (p : Profile) : Prop where
  filter : p.defaultFilter =
    (changes.filterMap Change.filter?).getLast?.getD (s.defaultFilter.getD (.obj []))
  order : p.defaultOrder =
    (changes.filterMap Change.order?).getLast?.getD (s.defaultOrder.getD (.obj []))
  names (source : String) : p.sortNames.find? source =
    (changes.filterMap (Change.target? source)).getLast?.or (s.sortNames.find? source)
  hook : p.parser.hook = (changes.filterMap Change.hook?).getLast?.getD
    (if s.conditionNames.isEmpty then none else some (.rename s.conditionNames))

theorem find?_sortNames_changeAll (p : Profile) (changes : List Change) (source : String) :
    (p.changeAll changes).sortNames.find? source =
      (changes.filterMap (Change.target? source)).getLast?.or (p.sortNames.find? source) := by
  have hstep : ∀ (p : Profile) (c : Change), (p.change c).sortNames.find? source =
      ((c.target? source).map some).getD (p.sortNames.find? source) := by
    intro p c
    cases c with
    | sortName name target =>
      by_cases hname : name = source <;>
        simp [change, Renaming.find?_insert, Change.target?, hname]
    | _ => rfl
  rw [changeAll, foldl_eq_last (fun p : Profile => p.sortNames.find? source) hstep,
    ← List.map_filterMap, List.getLast?_map]
  cases (changes.filterMap (Change.target? source)).getLast? <;> rfl

theorem holdsLast_changeAll (s : Settings) (changes : List Change) :
    HoldsLast s changes ((ofSettings s).changeAll changes) where
  filter := foldl_eq_last Profile.defaultFilter (fun _ c => by cases c <;> rfl) _ _
  order := foldl_eq_last Profile.defaultOrder (fun _ c => by cases c <;> rfl) _ _
  names := find?_sortNames_changeAll (ofSettings s) changes
  hook := foldl_eq_last (fun p : Profile => p.parser.hook)
    (fun _ c => by cases c <;> rfl) _ _

/-- The slots are all that a profile has. -/
theorem HoldsLast.eq {s : Settings} {changes : List Change} {p r : Profile}
    (hp : HoldsLast s changes p) (hr : HoldsLast s changes r) : p = r := by
  obtain ⟨⟨hook⟩, sortNames, filter, order⟩ := p
  obtain ⟨⟨hook'⟩, sortNames', filter', order'⟩ := r
  obtain rfl : sortNames = sortNames' :=
    Renaming.ext_find? fun source => (hp.names source).trans (hr.names source).symm
  obtain rfl : hook = hook' := hp.hook.trans hr.hook.symm
  obtain rfl : filter = filter' := hp.filter.trans hr.filter.symm
  obtain rfl : order = order' := hp.order.trans hr.order.symm
  rfl

/-- What is written to a slot can be read off the changes of that slot. -/
theorem filterMap_filter_slot {α : Type} {write : Change → Option α} {slot : Slot}
    (h : ∀ c, c.slot ≠ slot → write c = none) (changes : List Change) :
    (changes.filter (·.slot = slot)).filterMap write = changes.filterMap write := by
  induction changes with
  | nil => rfl
  | cons c changes ih =>
    by_cases hc : c.slot = slot
    · simp [List.filterMap_cons, hc, ih]
    · simp [hc, h c hc, ih]

/-- Changes in another order leave the same in every slot, if those of one slot keep theirs. -/
theorem HoldsLast.of_filter_eq {s : Settings} {changes others : List Change} {p : Profile}
    (h : ∀ slot, changes.filter (·.slot = slot) = others.filter (·.slot = slot))
    (hp : HoldsLast s changes p) : HoldsLast s others p := by
  have hwrites : ∀ {α : Type} {write : Change → Option α} (slot : Slot),
      (∀ c, c.slot ≠ slot → write c = none) →
        changes.filterMap write = others.filterMap write := by
    intro α write slot hslot
    rw [← filterMap_filter_slot hslot, h slot, filterMap_filter_slot hslot]
  obtain ⟨filter, order, names, hook⟩ := hp
  rw [hwrites .defaultFilter fun c hc => by cases c <;> simp_all [Change.slot, Change.filter?]]
    at filter
  rw [hwrites .defaultOrder fun c hc => by cases c <;> simp_all [Change.slot, Change.order?]]
    at order
  rw [hwrites .hook fun c hc => by cases c <;> simp_all [Change.slot, Change.hook?]] at hook
  refine ⟨filter, order, fun source => ?_, hook⟩
  rw [names, hwrites (.sortName source) fun c hc => by
    cases c <;> simp_all [Change.slot, Change.target?]]

end Profile

/-- Whatever changes are made of the profile that the settings set up, it selects as a profile does
whose slots hold what was written to them last, or else what the settings say. So changes of
different slots may change places. -/
theorem select_changed (s : Settings) :
    (∀ changes, Profile.HoldsLast s changes ((Profile.ofSettings s).changeAll changes)) ∧
    (∀ changes p, Profile.HoldsLast s changes p → ∀ text,
      ((Profile.ofSettings s).changeAll changes).select text = p.select text) ∧
    ∀ changes others : List Profile.Change,
      (∀ slot, changes.filter (·.slot = slot) = others.filter (·.slot = slot)) → ∀ text,
        ((Profile.ofSettings s).changeAll changes).select text =
          ((Profile.ofSettings s).changeAll others).select text := by
  have hlast := Profile.holdsLast_changeAll s
  refine ⟨hlast, fun changes p hp text => ?_, fun changes others h text => ?_⟩
  · rw [(hlast changes).eq hp]
  · rw [((hlast changes).of_filter_eq h).eq (hlast others)]

theorem select_changed_samples :
    (∀ text, (Profile.changeAll (.ofSettings
        ⟨.insert .empty "a" "x", .insert .empty "name" "n", none, some .null⟩)
        [.sortName "a" "b", .hook fun _ => .replace .null, .parser .plain, .sortName "a" "c"]).select
          text = Profile.select ⟨.plain, .insert .empty "a" "c", .obj [], .null⟩ text) ∧
    ∀ text, (Profile.changeAll (.ofSettings .empty)
        [.sortName "a" "b", .hook fun _ => .keep, .sortName "b" "a"]).select text =
      (Profile.changeAll (.ofSettings .empty)
        [.sortName "b" "a", .sortName "a" "b", .hook fun _ => .keep]).select text := by
  obtain ⟨-, hlast, -⟩ := select_changed
    ⟨.insert .empty "a" "x", .insert .empty "name" "n", none, some .null⟩
  obtain ⟨-, -, hswap⟩ := select_changed .empty
  refine ⟨hlast _ _ ⟨rfl, rfl, fun source => ?_, rfl⟩, hswap _ _ fun slot => ?_⟩
  · by_cases h : "a" = source
    · simp only [Renaming.find?_insert, List.filterMap_cons, Profile.Change.target?, if_pos h]
      rfl
    · rw [Renaming.find?_insert, if_neg h]
      simp only [List.filterMap_cons, Profile.Change.target?, if_neg h, List.filterMap_nil]
      simp [Renaming.find?_insert, h]
  · rcases slot with source | _ | _ | _
    · by_cases ha : "a" = source
      · simp [Profile.Change.slot, ← ha]
      · by_cases hb : "b" = source <;> simp [Profile.Change.slot, ha, hb]
    all_goals rfl

end FilterQuery
