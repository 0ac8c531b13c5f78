import FilterQuery.Proofs.Coalescing
import FilterQuery.Settings

/-!
# Leaves under new names

To render with a hook that renames is to render, without a hook, the tree with other identifiers in
its leaves (`Condition.fill_mapIdentifiers`). A name is looked up once, and of the pairs that begin
with it the last one counts (`Renaming.apply_ofList`); so pairs may swap names, or lead to names
that other pairs begin with. A profile whose settings have names to filter by renders the same way.
-/

namespace FilterQuery

namespace Condition

mutual

/-- The condition with `f` applied to the identifier of each leaf. -/
def mapIdentifiers (f : String → String) : Condition → Condition
  | .leaf l => .leaf ⟨f l.identifier, l.predicate⟩
  | .node c children => .node c (mapIdentifiersOfAll f children)

def mapIdentifiersOfAll (f : String → String) : List Condition → List Condition
  | [] => []
  | x :: xs => x.mapIdentifiers f :: mapIdentifiersOfAll f xs

end

end Condition

/-- The query with `f` applied to the identifier of each leaf; the sort items stay. -/
def Query.mapIdentifiers (f : String → String) (q : Query) : Query :=
  ⟨q.filter.map (Condition.mapIdentifiers f), q.order⟩

/-- What a list of pairs makes of a name: the second part of the last pair that begins with it, or
the name itself if there is none. -/
def lastTarget (pairs : List (String × String)) (name : String) : String :=
  ((pairs.reverse.find? (·.1 = name)).map (·.2)).getD name

namespace Renaming

theorem find?_ofList (pairs : List (String × String)) (name : String) :
    (ofList pairs).find? name = (pairs.reverse.find? (·.1 = name)).map (·.2) := by
  induction pairs using List.reverseRecOn with
  | nil => rfl
  | append_singleton pairs pair ih =>
    rw [ofList] at ih
    rw [ofList, List.foldl_concat, find?_insert, ih]
    by_cases h : pair.1 = name <;> simp [h]

theorem apply_ofList (pairs : List (String × String)) :
    (ofList pairs).apply = lastTarget pairs := by
  funext name
  rw [apply, find?_ofList, lastTarget]

end Renaming

namespace Condition

variable {f : String → String}

theorem mapIdentifiersOfAll_eq_map (f : String → String) : ∀ xs : List Condition,
    mapIdentifiersOfAll f xs = xs.map (mapIdentifiers f)
  | [] => rfl
  | x :: xs => by rw [mapIdentifiersOfAll, mapIdentifiersOfAll_eq_map f xs, List.map_cons]

theorem mapIdentifiers_eq_self (h : ∀ name, f name = name) (x : Condition) :
    x.mapIdentifiers f = x := by
  induction x using Condition.induction with
  | leaf l => rw [mapIdentifiers, h]
  | node c xs ih => rw [mapIdentifiers, mapIdentifiersOfAll_eq_map,
      List.map_congr_left ih, List.map_id']

end Condition

/-- The call under the name that `f` gives to its identifier. -/
def Call.rename (f : String → String) (c : Call) : Call :=
  ⟨f c.identifier, c.operator, c.argument⟩

theorem Leaf.call_rename (f : String → String) (l : Leaf) :
    (Leaf.call ⟨f l.identifier, l.predicate⟩) = l.call.rename f := by
  obtain ⟨name, _ | _⟩ := l <;> rfl

/-- To put the documents of renamed calls into a tree is to rename its leaves. -/
theorem Condition.fill_mapIdentifiers (f : String → String) (x : Condition) :
    (x.mapIdentifiers f).fill Call.document = x.fill fun c => (c.rename f).document := by
  induction x using Condition.induction with
  | leaf l => rw [mapIdentifiers, fill, fill, Leaf.call_rename]
  | node c xs ih =>
    have hmap : xs.map (fill Call.document ∘ mapIdentifiers f) =
        xs.map (fill fun c => (c.rename f).document) := List.map_congr_left ih
    rw [mapIdentifiers, fill, fill, mapIdentifiersOfAll_eq_map, fillAll_eq_map, fillAll_eq_map,
      List.map_map, hmap]

theorem Hook.value_rename (r : Renaming) (c : Call) :
    (Hook.rename r).value c = (c.rename r.apply).document := by
  unfold Hook.value Hook.rename Call.rename Renaming.apply
  rcases h : r.find? c.identifier with _ | target <;> simp

theorem Hook.rename_ne_panic (r : Renaming) (c : Call) (message : String) :
    Hook.rename r c ≠ .panic message := by
  unfold Hook.rename
  split <;> nofun

/-- Rendering with a hook that renames makes the document of the query with the names renamed. -/
theorem Query.render_rename (r : Renaming) (q : Query) :
    ∃ d, (q.render (some (.rename r))).outcome = .ok d ∧
      (q.mapIdentifiers r.apply).render none = .done d := by
  have hrender := Query.render_of_values (q := q) fun c _ =>
    Call.render_of_hook (Hook.rename_ne_panic r c)
  refine ⟨_, congrArg Rendering.outcome hrender, ?_⟩
  obtain ⟨_ | x, order⟩ := q
  · rfl
  · have hfill : (Hook.rename r).value = fun c => (c.rename r.apply).document :=
      funext (Hook.value_rename r)
    rw [render_none, hfill]
    simp only [mapIdentifiers, Option.map_some, Condition.fill_mapIdentifiers]

/-- A profile that is set up renders what its names to filter by make of a query. -/
theorem Profile.exists_render_ofSettings (s : Settings) (q : Query) :
    ∃ d, ((Profile.ofSettings s).parser.render q).outcome = .ok d ∧
      (q.mapIdentifiers s.conditionNames.apply).render none = .done d := by
  by_cases h : s.conditionNames.isEmpty
  · have hsame : q.mapIdentifiers s.conditionNames.apply = q := by
      obtain ⟨_ | x, order⟩ := q
      · rfl
      · rw [Query.mapIdentifiers, Option.map_some,
          Condition.mapIdentifiers_eq_self (Renaming.apply_of_isEmpty h)]
    have hhook : (Profile.ofSettings s).parser.render q = q.render none := by
      simp [Profile.ofSettings, Parser.render, h]
    rw [hsame, hhook, q.render_none]
    exact ⟨_, rfl, rfl⟩
  · simpa [Profile.ofSettings, Parser.render, h] using Query.render_rename s.conditionNames q

/-- Rendering with the hook of a list of pairs is rendering the query with each identifier replaced
once, by what the last pair for it says. So the filter that a profile with names to filter by
selects for an accepted text is the document, without a hook, of the condition under these names. -/
theorem render_with_renaming_hook :
    (∀ (pairs : List (String × String)) (q : Query), ∃ d,
      (q.render (some (.rename (.ofList pairs)))).outcome = .ok d ∧
        (q.mapIdentifiers (lastTarget pairs)).render none = .done d) ∧
    ∀ (s : Settings) (text : String) (q : Query) (x : Condition), Query.ofText text = .ok q →
      q.filter = some x → ∃ r selection json,
        (Profile.ofSettings s).select (some text) = .ok r ∧ r.outcome = .ok selection ∧
          (x.mapIdentifiers s.conditionNames.apply).render none = .done json ∧
            selection.filter = .parsed json := by
  refine ⟨fun pairs q => ?_, fun s text q x h hx => ?_⟩
  · rw [← Renaming.apply_ofList]
    exact Query.render_rename _ q
  · obtain ⟨d, hd, hplain⟩ := Profile.exists_render_ofSettings s q
    have hfilter : d.filter =
        some ((x.mapIdentifiers s.conditionNames.apply).fill Call.document) := by
      rw [Query.render_none, Query.mapIdentifiers, hx] at hplain
      rw [← Except.ok.inj (congrArg Rendering.outcome hplain)]
      rfl
    refine ⟨_, (Profile.ofSettings s).complete d, _, Profile.select_eq h, ?_,
      Condition.render_none _, ?_⟩
    · rw [Rendering.map, hd]
      rfl
    · rw [Profile.complete, hfilter]
      rfl

theorem render_with_renaming_hook_of_swap : ∃ q r s, Query.ofText "a = 1 AND b = 2" = .ok q ∧
    (Profile.ofSettings ⟨.empty, .ofList [("a", "c"), ("a", "b"), ("b", "a")], none, none⟩).select
      (some "a = 1 AND b = 2") = .ok r ∧ r.outcome = .ok s ∧ s.filter = .parsed
        (.obj [("$and", .arr [.obj [("b", .int 1)], .obj [("a", .int 2)]])]) := by
  have hread : Sentence.ofText "a = 1 AND b = 2" = .ok (.filter (.one (.more
      (.one (.test (.compare "a" .equal (.int 1)))) (.test (.compare "b" .equal (.int 2)))))) := by
    refine Stage.read_eq_ok_of_passes (.cons rfl nofun (.cons rfl nofun (.cons rfl nofun
      (.cons rfl nofun (.cons rfl nofun (.cons rfl nofun (.cons rfl nofun (.nil _)))))))) ?_ rfl rfl
    nofun
  have h := (ofText_eq_ok_iff_sentence (by decide)).2 ⟨_, hread, rfl⟩
  obtain ⟨r, s, json, hselect, hs, hplain, hfilter⟩ := render_with_renaming_hook.2
    ⟨.empty, .ofList [("a", "c"), ("a", "b"), ("b", "a")], none, none⟩ _ _ _ h rfl
  obtain rfl : _ = json := Except.ok.inj (congrArg Rendering.outcome hplain)
  exact ⟨_, r, s, h, hselect, hs, hfilter⟩

end FilterQuery
