/-!
# Renamings

A finite map from names to names, kept in ascending order of the names it renames, so two renamings
that send every name to the same name are the same renaming (`Renaming.ext_find?`).
-/

namespace FilterQuery

/-- Names with the names that replace them. -/
structure Renaming where
  entries : List (String × String)
  ascending : entries.Pairwise fun a b => a.1 < b.1

namespace Renaming

def empty : Renaming where
  entries := []
  ascending := .nil

/-- Puts an entry in its place in an ascending list, over one of the same name. -/
def insertEntry (source target : String) : List (String × String) → List (String × String)
  | [] => [(source, target)]
  | entry :: rest =>
    if source < entry.1 then (source, target) :: entry :: rest
    else if entry.1 < source then entry :: insertEntry source target rest
    else (source, target) :: rest

theorem eq_of_not_lt {a b : String} (h : ¬a < b) (h' : ¬b < a) : a = b :=
  String.le_antisymm h' h

theorem mem_insertEntry {source target : String} {entry : String × String} :
    ∀ {entries : List (String × String)}, entry ∈ insertEntry source target entries →
      entry = (source, target) ∨ entry ∈ entries
  | [], h => by simpa [insertEntry] using h
  | e :: rest, h => by
    unfold insertEntry at h
    split at h
    · simpa using h
    · split at h
      · rcases List.mem_cons.1 h with rfl | h
        · simp
        · rcases mem_insertEntry h with h | h <;> simp [h]
      · rcases List.mem_cons.1 h with rfl | h <;> simp_all

theorem ascending_insertEntry {source target : String} :
    ∀ {entries : List (String × String)}, (entries.Pairwise fun a b => a.1 < b.1) →
      (insertEntry source target entries).Pairwise fun a b => a.1 < b.1
  | [], _ => by simp [insertEntry]
  | e :: rest, h => by
    obtain ⟨he, hr⟩ := List.pairwise_cons.1 h
    unfold insertEntry
    split
    · rename_i hlt
      refine List.pairwise_cons.2 ⟨fun a ha => ?_, h⟩
      rcases List.mem_cons.1 ha with rfl | ha
      · exact hlt
      · exact String.lt_trans hlt (he a ha)
    · split
      · rename_i hgt
        refine List.pairwise_cons.2 ⟨fun a ha => ?_, ascending_insertEntry hr⟩
        rcases mem_insertEntry ha with rfl | ha
        · exact hgt
        · exact he a ha
      · rename_i hlt hgt
        have heq := eq_of_not_lt hlt hgt
        exact List.pairwise_cons.2 ⟨fun a ha => by simpa [heq] using he a ha, hr⟩

/-- Sends `source` to `target`, whatever it was sent to before. -/
def insert (r : Renaming) (source target : String) : Renaming where
  entries := insertEntry source target r.entries
  ascending := ascending_insertEntry r.ascending

/-- The renaming of a list of pairs; the last pair of a name counts. -/
def ofList (pairs : List (String × String)) : Renaming :=
  pairs.foldl (fun r pair => r.insert pair.1 pair.2) empty

/-- What `name` is sent to, if the renaming has an entry for it. -/
def find? (r : Renaming) (name : String) : Option String :=
  (r.entries.find? (·.1 = name)).map (·.2)

/-- What `name` is sent to; a name without an entry stays. -/
def apply (r : Renaming) (name : String) : String :=
  (r.find? name).getD name

def isEmpty (r : Renaming) : Bool :=
  r.entries.isEmpty

theorem apply_of_isEmpty {r : Renaming} (h : r.isEmpty = true) (name : String) :
    r.apply name = name := by
  simp [apply, find?, List.isEmpty_iff.1 h]

def size (r : Renaming) : Nat :=
  r.entries.length

theorem find?_insert (r : Renaming) (source target name : String) :
    (r.insert source target).find? name = if source = name then some target else r.find? name := by
  have key : ∀ entries : List (String × String), (entries.Pairwise fun a b => a.1 < b.1) →
      ((insertEntry source target entries).find? (·.1 = name)).map (·.2) =
        if source = name then some target else (entries.find? (·.1 = name)).map (·.2) := by
    intro entries
    induction entries with
    | nil => intro _; by_cases h : source = name <;> simp [insertEntry, h]
    | cons e rest ih =>
      intro hp
      obtain ⟨_, hr⟩ := List.pairwise_cons.1 hp
      unfold insertEntry
      split
      · by_cases h : source = name <;> simp [List.find?_cons, h]
      · split
        · rename_i hgt
          by_cases he : e.1 = name
          · have hne : source ≠ name := fun h => String.lt_irrefl _ (he ▸ h ▸ hgt)
            simp [he, hne]
          · simpa [List.find?_cons, he] using ih hr
        · rename_i hlt hgt
          have heq := eq_of_not_lt hlt hgt
          by_cases h : source = name
          · simp [h]
          · simp [h, show ¬e.1 = name from heq ▸ h]
  exact key r.entries r.ascending

theorem find?_eq_some_iff (r : Renaming) {name target : String} :
    r.find? name = some target ↔ (name, target) ∈ r.entries := by
  obtain ⟨entries, hp⟩ := r
  unfold find?
  dsimp only
  induction entries with
  | nil => simp
  | cons e rest ih =>
    obtain ⟨he, hr⟩ := List.pairwise_cons.1 hp
    by_cases h : e.1 = name
    · subst h
      have hn : (e.1, target) ∉ rest := fun hm => String.lt_irrefl e.1 (he (e.1, target) hm)
      simp only [List.find?_cons, decide_true, Option.map_some, Option.some.injEq, List.mem_cons,
        hn, or_false]
      exact ⟨fun ht => by rw [← ht], fun ht => by rw [← ht]⟩
    · have hn : ¬(name, target) = e := fun hm => h (by rw [← hm])
      simpa [List.find?_cons, h, hn] using ih hr

theorem ext_find? {r s : Renaming} (h : ∀ name, r.find? name = s.find? name) : r = s := by
  have hmem : ∀ e, e ∈ r.entries ↔ e ∈ s.entries := fun e => by
    have hr : r.find? e.1 = some e.2 ↔ e ∈ r.entries := find?_eq_some_iff r
    have hs : s.find? e.1 = some e.2 ↔ e ∈ s.entries := find?_eq_some_iff s
    rw [← hr, h, hs]
  obtain ⟨as, ha⟩ := r
  obtain ⟨bs, hb⟩ := s
  congr
  dsimp only at hmem
  clear h
  induction as generalizing bs with
  | nil => cases bs with
    | nil => rfl
    | cons b bs => exact absurd ((hmem b).2 (by simp)) (by simp)
  | cons a as ih => cases bs with
    | nil => exact absurd ((hmem a).1 (by simp)) (by simp)
    | cons b bs =>
      obtain ⟨ha1, ha2⟩ := List.pairwise_cons.1 ha
      obtain ⟨hb1, hb2⟩ := List.pairwise_cons.1 hb
      have hab : a = b := by
        rcases List.mem_cons.1 ((hmem a).1 (by simp)) with h | h
        · exact h
        · rcases List.mem_cons.1 ((hmem b).2 (by simp)) with h' | h'
          · exact h'.symm
          · exact absurd (String.lt_trans (hb1 a h) (ha1 b h')) (String.lt_irrefl _)
      subst hab
      congr 1
      refine ih ha2 bs hb2 fun e => ?_
      have he := hmem e
      simp only [List.mem_cons] at he
      constructor
      · intro hm
        rcases he.1 (.inr hm) with rfl | hm'
        · exact absurd (ha1 _ hm) (String.lt_irrefl _)
        · exact hm'
      · intro hm
        rcases he.2 (.inr hm) with rfl | hm'
        · exact absurd (hb1 _ hm) (String.lt_irrefl _)
        · exact hm'

end Renaming

end FilterQuery
