import FilterQuery.Profile
import FilterQuery.Proofs.Asking
import Mathlib.Data.List.Nodup

/-!
# Sort keys that fall together

Entries made of a list of pairs have each key once, at its first place (`Entries.keys_ofList`) and
with its last value (`Entries.find?_ofList`). A profile makes entries twice: from the sort items,
and again when there are keys to rename; with none, the second time would change nothing
(`Renaming.renameKeys_eq_rewriteKeys`). So where several identifiers get one name, that name has the
direction of the identifier that begins last, and this need not be the last direction that the name
is given (`order_renamed_iff`): it is if no identifier that is repeated shares its name with another
one.
-/

namespace FilterQuery

section Places

variable {α β : Type}

theorem find?_eq_some_of_imp {p q : α → Bool} {xs : List α} {x : α} (h : xs.find? p = some x)
    (hq : q x = true) (himp : ∀ y, q y = true → p y = true) : xs.find? q = some x := by
  obtain ⟨-, front, back, rfl, hfront⟩ := List.find?_eq_some_iff_append.1 h
  refine List.find?_eq_some_iff_append.2 ⟨hq, front, back, rfl, fun y hy => ?_⟩
  by_contra hn
  simp only [Bool.not_eq_true', Bool.not_eq_false] at hn
  simpa [himp y hn] using hfront y hy

variable [DecidableEq α] [DecidableEq β]

theorem eraseDups_concat (xs : List α) (x : α) :
    (xs ++ [x]).eraseDups = if x ∈ xs then xs.eraseDups else xs.eraseDups ++ [x] := by
  rw [List.eraseDups_append, List.removeAll]
  by_cases h : x ∈ xs <;> simp [h, List.eraseDups_cons]

theorem nodup_eraseDups (xs : List α) : xs.eraseDups.Nodup := by
  induction xs using List.reverseRecOn with
  | nil => simp
  | append_singleton xs x ih =>
    rw [eraseDups_concat]
    split_ifs with h
    · exact ih
    · simpa [List.nodup_append, ih] using fun a ha => ne_of_mem_of_not_mem ha h

theorem eraseDups_map_eraseDups (f : α → β) (xs : List α) :
    (xs.eraseDups.map f).eraseDups = (xs.map f).eraseDups := by
  induction xs using List.reverseRecOn with
  | nil => rfl
  | append_singleton xs x ih =>
    rw [eraseDups_concat, List.map_append, List.map_singleton, eraseDups_concat]
    split_ifs with h hf hf
    · exact ih
    · exact absurd (List.mem_map_of_mem h) hf
    · rw [List.map_append, List.map_singleton, eraseDups_concat, if_pos (by simpa using hf), ih]
    · rw [List.map_append, List.map_singleton, eraseDups_concat, if_neg (by simpa using hf), ih]

/-- Of the things that `f` sends to `k`, the last one is also the one that begins last, if a thing
that is repeated is the only one that is sent where it is. -/
theorem find?_reverse_eraseDups {f : α → β} {xs : List α}
    (h : ∀ a ∈ xs, 2 ≤ xs.count a → ∀ b ∈ xs, f a = f b → a = b) (k : β) :
    xs.eraseDups.reverse.find? (f · = k) = xs.reverse.find? (f · = k) := by
  induction xs using List.reverseRecOn with
  | nil => rfl
  | append_singleton xs x ih =>
    have hxs : ∀ a ∈ xs, 2 ≤ xs.count a → ∀ b ∈ xs, f a = f b → a = b := by
      intro a ha hc b hb hf
      have hcount : xs.count a ≤ (xs ++ [x]).count a := by simp
      exact h a (by simp [ha]) (Nat.le_trans hc hcount) b (by simp [hb]) hf
    have ih := ih hxs
    rw [eraseDups_concat]
    by_cases hm : x ∈ xs
    · rw [if_pos hm, ih]
      by_cases hk : f x = k
      · -- `x` is repeated, so nothing else is sent to `k`
        have hcount : 2 ≤ (xs ++ [x]).count x := by
          have := List.count_pos_iff.2 hm
          simp
          omega
        rcases hfind : xs.reverse.find? (f · = k) with _ | y
        · rw [List.find?_eq_none] at hfind
          exact absurd hk (by simpa using hfind x (by simpa using hm))
        · have hy := List.find?_some hfind
          have hmem := List.mem_of_find?_eq_some hfind
          simp only [decide_eq_true_eq, List.mem_reverse] at hy hmem
          obtain rfl : x = y := h x (by simp) hcount y (by simp [hmem]) (hk.trans hy.symm)
          simp [hk]
      · simp [hk]
    · rw [if_neg hm]
      by_cases hk : f x = k <;> simp [hk, ih]

end Places

namespace Entries

variable {α : Type} {entries : Entries α} {key : String}

theorem ofList_concat (pairs : List (String × α)) (pair : String × α) :
    ofList (pairs ++ [pair]) = insert pair.1 pair.2 (ofList pairs) := by
  simp [ofList]

theorem keys_ofList (pairs : List (String × α)) :
    keys (ofList pairs) = (pairs.map (·.1)).eraseDups := by
  induction pairs using List.reverseRecOn with
  | nil => rfl
  | append_singleton pairs pair ih =>
    rw [ofList_concat, List.map_append, List.map_singleton, eraseDups_concat]
    split_ifs with h
    · rw [keys_insert_of_mem (by rw [ih]; simpa using h), ih]
    · rw [keys_insert_of_not_mem (by rw [ih]; simpa using h), ih]

theorem find?_ofList (pairs : List (String × α)) (key : String) :
    find? key (ofList pairs) = (pairs.reverse.find? (·.1 = key)).map (·.2) := by
  induction pairs using List.reverseRecOn with
  | nil => rfl
  | append_singleton pairs pair ih =>
    rw [ofList_concat, find?_insert, ih]
    by_cases h : pair.1 = key <;> simp [h]

/-- If no key comes twice, there is nothing to coalesce. -/
theorem ofList_of_nodup (h : (keys entries).Nodup) : ofList entries = entries := by
  induction entries using List.reverseRecOn with
  | nil => rfl
  | append_singleton front entry ih =>
    rw [keys, List.map_append, List.map_singleton, List.nodup_append_comm] at h
    obtain ⟨hkey, hfront⟩ := List.nodup_cons.1 h
    rw [ofList_concat, ih hfront, insert_of_not_mem hkey]

theorem find?_eq_some_of_mem {value : α} : ∀ {entries : Entries α}, (keys entries).Nodup →
    (key, value) ∈ entries → find? key entries = some value
  | (k, v) :: rest, hn, hm => by
    simp only [keys, List.map_cons, List.nodup_cons] at hn
    rcases List.mem_cons.1 hm with h | h
    · simp only [Prod.mk.injEq] at h
      simp [find?, h]
    · have hk : k ≠ key := by
        rintro rfl
        exact hn.1 (List.mem_map_of_mem h)
      rw [find?, if_neg hk]
      exact find?_eq_some_of_mem hn.2 h

theorem find?_eq_none_of_not_mem : ∀ {entries : Entries α}, key ∉ keys entries →
    find? key entries = none
  | [], _ => rfl
  | (k, v) :: rest, h => by
    simp only [keys, List.map_cons, List.mem_cons, not_or] at h
    rw [find?, if_neg (Ne.symm h.1)]
    exact find?_eq_none_of_not_mem h.2

/-- Entries are told by their keys and by what is found under these. -/
theorem ext_find? : ∀ {entries others : Entries α}, (keys entries).Nodup →
    keys entries = keys others → (∀ key, find? key entries = find? key others) → entries = others
  | [], others, _, hk, _ => by
    rcases others with _ | ⟨other, others⟩
    · rfl
    · simp [keys] at hk
  | (k, v) :: rest, others, hn, hk, h => by
    obtain ⟨⟨k', v'⟩, others, rfl⟩ : ∃ other others', others = other :: others' := by
      rcases others with _ | ⟨other, others⟩
      · simp [keys] at hk
      · exact ⟨other, others, rfl⟩
    simp only [keys, List.map_cons, List.cons.injEq, List.nodup_cons] at hn hk
    obtain ⟨rfl, hkeys⟩ := hk
    have hv := h k
    simp only [find?, if_true, Option.some.injEq] at hv
    subst hv
    have hrest : rest = others := by
      refine ext_find? hn.2 hkeys fun key => ?_
      by_cases hkey : k = key
      · subst hkey
        have hothers : k ∉ keys others := by
          rw [keys, ← hkeys]
          exact hn.1
        rw [find?_eq_none_of_not_mem hn.1, find?_eq_none_of_not_mem hothers]
      · simpa [find?, hkey] using h key
    rw [hrest]

/-- Where the keys of entries fall together by `f`, the last of those that are sent to `key` gives
the value. -/
theorem find?_ofList_map (h : (keys entries).Nodup) (f : String → String) (key : String) :
    find? key (ofList (entries.map fun entry => (f entry.1, entry.2))) =
      ((keys entries).reverse.find? (f · = key)).bind fun k => find? k entries := by
  have hlast : (entries.map fun entry => (f entry.1, entry.2)).reverse.find? (·.1 = key) =
      (entries.reverse.find? fun entry => f entry.1 = key).map fun entry => (f entry.1, entry.2) := by
    rw [← List.map_reverse, List.find?_map]
    rfl
  have hkey : (keys entries).reverse.find? (f · = key) =
      (entries.reverse.find? fun entry => f entry.1 = key).map (·.1) := by
    rw [keys, ← List.map_reverse, List.find?_map]
    rfl
  rw [find?_ofList, hlast, hkey]
  rcases hfind : entries.reverse.find? (fun entry => f entry.1 = key) with _ | ⟨k, v⟩ <;>
    simp only [hfind]
  · rfl
  · have hmem : (k, v) ∈ entries := List.mem_reverse.1 (List.mem_of_find?_eq_some hfind)
    simp [find?_eq_some_of_mem h hmem]

end Entries

/-- With nothing to rename the entries are not written again, but to do so would change nothing. -/
theorem Renaming.renameKeys_eq_rewriteKeys {α : Type} (r : Renaming) {entries : Entries α}
    (h : (Entries.keys entries).Nodup) : r.renameKeys entries = r.rewriteKeys entries := by
  by_cases hr : r.isEmpty = true
  · have hsame : entries.map (fun entry => (r.apply entry.1, entry.2)) = entries :=
      List.map_id'' (fun entry => by rw [apply_of_isEmpty hr]) entries
    rw [renameKeys, if_pos hr, rewriteKeys, hsame, Entries.ofList_of_nodup h]
  · rw [renameKeys, if_neg hr]

namespace SortItem

/-- The item under the name that `r` gives to its identifier. -/
def rename (r : Renaming) (item : SortItem) : SortItem :=
  ⟨r.apply item.identifier, item.direction⟩

/-- The identifier that begins last in the list, of those that get the name `key`. -/
def begunLast? (r : Renaming) (items : List SortItem) (key : String) : Option String :=
  (items.map identifier).eraseDups.reverse.find? (r.apply · = key)

theorem keys_directions (items : List SortItem) :
    Entries.keys (directions items) = (items.map identifier).eraseDups := by
  rw [directions, Entries.keys_ofList, List.map_map]
  rfl

theorem find?_directions (items : List SortItem) (key : String) :
    Entries.find? key (directions items) = directionOf? items key := by
  rw [directions, Entries.find?_ofList, ← List.map_reverse, List.find?_map, Option.map_map]
  rfl

theorem nodup_keys_directions (items : List SortItem) :
    (Entries.keys (directions items)).Nodup := by
  rw [keys_directions]
  exact nodup_eraseDups _

variable (r : Renaming) (items : List SortItem) (key : String)

theorem renameKeys_directions :
    r.renameKeys (directions items) = r.rewriteKeys (directions items) :=
  r.renameKeys_eq_rewriteKeys (nodup_keys_directions items)

theorem keys_renameKeys : Entries.keys (r.renameKeys (directions items)) =
    Entries.keys (directions (items.map (rename r))) := by
  rw [renameKeys_directions, Renaming.rewriteKeys, Entries.keys_ofList, keys_directions,
    List.map_map, List.map_map]
  have hkeys := congrArg (List.map r.apply) (keys_directions items)
  rw [Entries.keys, List.map_map] at hkeys
  exact (congrArg _ hkeys).trans ((eraseDups_map_eraseDups _ _).trans (by rw [List.map_map]; rfl))

theorem find?_renameKeys : Entries.find? key (r.renameKeys (directions items)) =
    (begunLast? r items key).bind (directionOf? items) := by
  rw [renameKeys_directions, Renaming.rewriteKeys,
    Entries.find?_ofList_map (nodup_keys_directions items) r.apply, keys_directions]
  simp only [find?_directions]
  rfl

/-- If an identifier that is repeated shares its name with no other one, the identifier that begins
last for a name is also the one that is last given a direction. -/
theorem directionOf?_begunLast? {r : Renaming} {items : List SortItem}
    (h : ∀ x ∈ items, 2 ≤ (items.map identifier).count x.identifier → ∀ y ∈ items,
      r.apply x.identifier = r.apply y.identifier → x.identifier = y.identifier) (key : String) :
    (begunLast? r items key).bind (directionOf? items) =
      directionOf? (items.map (rename r)) key := by
  have hlast : begunLast? r items key =
      (items.reverse.find? fun item => r.apply item.identifier = key).map identifier := by
    rw [begunLast?, find?_reverse_eraseDups, ← List.map_reverse, List.find?_map]
    · rfl
    · simpa using h
  have hrenamed : directionOf? (items.map (rename r)) key =
      (items.reverse.find? fun item => r.apply item.identifier = key).map direction := by
    rw [directionOf?, ← List.map_reverse, List.find?_map, Option.map_map]
    rfl
  rw [hlast, hrenamed]
  rcases hfind : items.reverse.find? (fun item => r.apply item.identifier = key) with _ | item <;>
    simp only [hfind]
  · rfl
  · have hkey := List.find?_some hfind
    simp only [decide_eq_true_eq] at hkey
    have hitem : items.reverse.find? (·.identifier = item.identifier) = some item :=
      find?_eq_some_of_imp hfind (by simp) fun y hy => by simp_all
    simp [directionOf?, hitem]

/-- Renaming keys and coalescing items may change places only if no name loses its last
direction. -/
theorem renameKeys_directions_iff : r.renameKeys (directions items) =
    directions (items.map (rename r)) ↔ ∀ key,
      (begunLast? r items key).bind (directionOf? items) =
        directionOf? (items.map (rename r)) key := by
  constructor
  · intro h key
    rw [← find?_renameKeys, h, find?_directions]
  · intro h
    refine Entries.ext_find? ?_ (keys_renameKeys r items) fun key => ?_
    · rw [keys_renameKeys]
      exact nodup_keys_directions _
    · rw [find?_renameKeys, h, find?_directions]

end SortItem

theorem Direction.toJson_injective : Function.Injective toJson := by
  intro es fs h
  have hsign : Function.Injective fun entry : String × Direction =>
      (entry.1, Json.int entry.2.sign) := by
    rintro ⟨k, d⟩ ⟨k', d'⟩ he
    cases d <;> cases d' <;> simp_all [sign]
  exact List.map_injective_iff.2 hsign (Json.obj.inj h)

namespace Profile

variable {p : Profile} {text : String} {q : Query}

theorem select_eq (h : Query.ofText text = .ok q) :
    p.select (some text) = .ok ((p.parser.render q).map p.complete) := by
  rw [select, Option.getD_some, Parser.parse, h]
  rfl

theorem exists_selection (hp : p.parser.hook = none) :
    ∃ s, ((p.parser.render q).map p.complete).outcome = .ok s := by
  rw [Parser.render, hp, q.render_none]
  exact ⟨_, rfl⟩

theorem order_of_selection {items : List SortItem} (hi : q.order = some items) {s : Selection}
    (h : ((p.parser.render q).map p.complete).outcome = .ok s) : s.order =
      .parsed (Direction.toJson (p.sortNames.renameKeys (SortItem.directions items))) := by
  rcases hr : (p.parser.render q).outcome with message | d <;>
    simp [Rendering.map, Except.map, hr] at h
  have hd : d.order = _ := Query.order_of_render hr
  simp [← h, complete, hd, hi, Clause.ofOption]

end Profile

/-- The order of a selection has the new names of the identifiers, each once and in the order in
which they come first, and under each name the direction of the identifier that begins last. It is
that of the sort items under their new names if and only if these are the directions that are given
last under the names; so if an identifier that is repeated shares its name with no other one. -/
theorem order_renamed_iff (p : Profile) {text : String} {q : Query} {items : List SortItem}
    (h : Query.ofText text = .ok q) (hi : q.order = some items) :
    ∃ r, p.select (some text) = .ok r ∧ (p.parser.hook = none → ∃ s, r.outcome = .ok s) ∧
      ∀ s, r.outcome = .ok s → ∃ entries, s.order = .parsed (Direction.toJson entries) ∧
        Entries.keys entries =
          (items.map fun item => p.sortNames.apply item.identifier).eraseDups ∧
        (∀ key, Entries.find? key entries =
          (SortItem.begunLast? p.sortNames items key).bind (SortItem.directionOf? items)) ∧
        (s.order = .parsed (Direction.toJson
            (SortItem.directions (items.map (SortItem.rename p.sortNames)))) ↔
          ∀ key, (SortItem.begunLast? p.sortNames items key).bind (SortItem.directionOf? items) =
            SortItem.directionOf? (items.map (SortItem.rename p.sortNames)) key) ∧
        ((∀ x ∈ items, 2 ≤ (items.map SortItem.identifier).count x.identifier → ∀ y ∈ items,
          p.sortNames.apply x.identifier = p.sortNames.apply y.identifier →
            x.identifier = y.identifier) →
          s.order = .parsed (Direction.toJson
            (SortItem.directions (items.map (SortItem.rename p.sortNames))))) := by
  refine ⟨_, Profile.select_eq h, Profile.exists_selection, fun s hs => ?_⟩
  have horder := Profile.order_of_selection hi hs
  have hiff := SortItem.renameKeys_directions_iff p.sortNames items
  refine ⟨_, horder, ?_, SortItem.find?_renameKeys p.sortNames items, ?_, fun hshare => ?_⟩
  · rw [SortItem.keys_renameKeys, SortItem.keys_directions, List.map_map]
    rfl
  · rw [horder, ← hiff, Clause.parsed.injEq, Direction.toJson_injective.eq_iff]
  · rw [horder, hiff.2 (SortItem.directionOf?_begunLast? hshare)]

theorem order_renamed_of_two : ∃ q r s, Query.ofText "ORDER BY a, b DESC" = .ok q ∧
    q.order = some [⟨"a", .ascending⟩, ⟨"b", .descending⟩] ∧
    Profile.select ⟨.plain, .insert .empty "b" "a", .obj [], .obj []⟩
      (some "ORDER BY a, b DESC") = .ok r ∧ r.outcome = .ok s ∧
      s.order = .parsed (.obj [("a", .int (-1))]) := by
  have hread : Sentence.ofText "ORDER BY a, b DESC" =
      .ok (.order (.more (.one ⟨"a", none⟩) ⟨"b", some .descending⟩)) := by
    refine Stage.read_eq_ok_of_passes (.cons rfl nofun (.cons rfl nofun (.cons rfl nofun
      (.cons rfl nofun (.cons rfl nofun (.cons rfl nofun (.nil _))))))) ?_ rfl rfl
    nofun
  have h := (ofText_eq_ok_iff_sentence (by decide)).2 ⟨_, hread, rfl⟩
  obtain ⟨r, hselect, hsome, horder⟩ :=
    order_renamed_iff ⟨.plain, .insert .empty "b" "a", .obj [], .obj []⟩ h rfl
  obtain ⟨s, hs⟩ := hsome rfl
  obtain ⟨_, -, -, -, -, hrenamed⟩ := horder s hs
  exact ⟨_, r, s, h, rfl, hselect, hs, hrenamed (by decide)⟩

/-- With `b` renamed to `a`, the name `a` is last given the direction of the third item, but it has
that of the second one. -/
theorem order_of_straddled_name : ∃ q items r s, Query.ofText "ORDER BY a, b, a DESC" = .ok q ∧
    q.order = some items ∧
    Profile.select ⟨.plain, .insert .empty "b" "a", .obj [], .obj []⟩
      (some "ORDER BY a, b, a DESC") = .ok r ∧ r.outcome = .ok s ∧
      s.order = .parsed (.obj [("a", .int 1)]) ∧
      SortItem.directionOf? (items.map (SortItem.rename (.insert .empty "b" "a"))) "a" =
        some .descending ∧
      s.order ≠ .parsed (Direction.toJson
        (SortItem.directions (items.map (SortItem.rename (.insert .empty "b" "a"))))) := by
  have hread : Sentence.ofText "ORDER BY a, b, a DESC" = .ok (.order
      (.more (.more (.one ⟨"a", none⟩) ⟨"b", none⟩) ⟨"a", some .descending⟩)) := by
    refine Stage.read_eq_ok_of_passes (.cons rfl nofun (.cons rfl nofun (.cons rfl nofun
      (.cons rfl nofun (.cons rfl nofun (.cons rfl nofun (.cons rfl nofun (.cons rfl nofun
        (.nil _))))))))) ?_ rfl rfl
    nofun
  have h := (ofText_eq_ok_iff_sentence (by decide)).2 ⟨_, hread, rfl⟩
  refine ⟨_, _, _, _, h, rfl, Profile.select_eq h, rfl, rfl, rfl, fun horder => ?_⟩
  have hentries := Direction.toJson_injective (Clause.parsed.inj horder)
  exact absurd hentries (by decide)

end FilterQuery
