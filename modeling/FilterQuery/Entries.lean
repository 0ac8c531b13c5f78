/-!
# Entries in order

The entries of an object or of a table, in the order in which their keys first came. Writing to a
key that is there keeps its place (`keys_insert_of_mem`), writing to a new key puts it last
(`keys_insert_of_not_mem`), and in both cases it is the new value that is found (`find?_insert`).
-/

namespace FilterQuery

/-- Keys with their values. -/
abbrev Entries (α : Type) := List (String × α)

namespace Entries

variable {α : Type}

def find? (key : String) : Entries α → Option α
  | [] => none
  | (k, v) :: rest => if k = key then some v else find? key rest

def insert (key : String) (value : α) : Entries α → Entries α
  | [] => [(key, value)]
  | (k, v) :: rest => if k = key then (k, value) :: rest else (k, v) :: insert key value rest

def keys (entries : Entries α) : List String :=
  entries.map (·.1)

def ofList (pairs : List (String × α)) : Entries α :=
  pairs.foldl (fun entries pair => insert pair.1 pair.2 entries) []

theorem find?_insert (key other : String) (value : α) :
    ∀ entries : Entries α, find? other (insert key value entries) =
      if key = other then some value else find? other entries
  | [] => rfl
  | (k, v) :: rest => by
    by_cases hk : k = key
    · subst hk
      by_cases ho : k = other <;> simp [insert, find?, ho]
    · rw [insert, if_neg hk, find?, find?, find?_insert key other value rest]
      by_cases ho : k = other
      · simp [ho, show ¬key = other from fun h => hk (ho.trans h.symm)]
      · simp [ho]

theorem keys_insert_of_mem {key : String} {value : α} :
    ∀ {entries : Entries α}, key ∈ keys entries → keys (insert key value entries) = keys entries
  | (k, v) :: rest, h => by
    by_cases hk : k = key
    · simp [insert, keys, hk]
    · have hr : key ∈ keys rest := by
        simpa [keys, show ¬key = k from fun e => hk e.symm] using h
      have ih : keys (insert key value rest) = keys rest := keys_insert_of_mem hr
      simp only [keys] at ih
      simp [insert, keys, hk, ih]

theorem insert_of_not_mem {key : String} {value : α} : ∀ {entries : Entries α},
    key ∉ keys entries → insert key value entries = entries ++ [(key, value)]
  | [], _ => rfl
  | (k, v) :: rest, h => by
    simp only [keys, List.map_cons, List.mem_cons, not_or] at h
    rw [insert, if_neg (Ne.symm h.1), insert_of_not_mem h.2, List.cons_append]

theorem keys_insert_of_not_mem {key : String} {value : α} {entries : Entries α}
    (h : key ∉ keys entries) : keys (insert key value entries) = keys entries ++ [key] := by
  rw [insert_of_not_mem h, keys, keys, List.map_append, List.map_singleton]

end Entries

end FilterQuery
