import StoryCheck.Proofs.Goals.Weighing
import StoryCheck.Proofs.Symbol.Contributions
import StoryCheck.StoryGoal

/-!
# Lists of goals

A list of goals is used by name. Where a goal stands in it matters for nothing but the order in
which goals are announced, so two lists in which every name is looked up alike have the same trees
and the same weights.

* **`get?_map`, `get?_put`, `get?_erase`** — lookups after changes.
* **`content`** — the text and the origin of each goal.
* **`IsRead`** — the tree of each goal is that of its text.
* **`weights_of_parents`** — lists in which every goal has the same parents have the same weights.
-/

namespace StoryCheck

open Syntax

namespace GoalList

variable {list a b : GoalList} {name removed : String} {goal : StoryGoal}
  {f : StoryGoal → StoryGoal}

/-! ## Lookups

A list of goals is a map from names to goals with an order. Goals that are put take the place of
those with their names, or come last. -/

/-- A goal is found under its own name. -/
theorem name_of_get? (hget : list.get? name = some goal) : goal.name = name := by
  simpa using List.find?_some hget

/-- What is found is in the list. -/
theorem mem_of_get? (hget : list.get? name = some goal) : goal ∈ list.goals :=
  List.mem_of_find?_eq_some hget

/-- A goal is found under the names of the list. -/
theorem isSome_get?_iff : (list.get? name).isSome ↔ name ∈ list.names := by
  simp [get?, names]

/-- To contain a name is to have a goal of that name. -/
theorem contains_iff : list.contains name = true ↔ name ∈ list.names := isSome_get?_iff

/-- In a list that holds no name twice, a goal is what its name is looked up as. -/
theorem get?_of_mem (hnodup : list.names.Nodup) (hmem : goal ∈ list.goals) :
    list.get? goal.name = some goal := by
  have hname : goal.name ∈ list.names := List.mem_map.2 ⟨goal, hmem, rfl⟩
  obtain ⟨found, hfound⟩ := Option.isSome_iff_exists.1 (isSome_get?_iff.2 hname)
  rw [hfound, List.inj_on_of_nodup_map hnodup (mem_of_get? hfound) hmem (name_of_get? hfound)]

/-- Changing the goals of a list leaves their names in order. -/
theorem names_map (hname : ∀ goal, (f goal).name = goal.name) : (list.map f).names = list.names := by
  simp [names, map, hname]

/-- A goal is found changed. -/
theorem get?_map (hname : ∀ goal, (f goal).name = goal.name) :
    (list.map f).get? name = (list.get? name).map f := by
  simp only [get?, map, List.find?_map]
  congr 2
  funext goal
  simp [hname]

/-- A goal that was put is found under its name, and others as before. -/
theorem get?_put :
    (list.put goal).get? name = if name = goal.name then some goal else list.get? name := by
  unfold put
  -- A goal that is there is put in its old place, a new one behind the last.
  split
  · next hcontains =>
    rw [modify, get?_map (by intro other; split <;> simp_all)]
    obtain ⟨old, hold⟩ := Option.isSome_iff_exists.1 hcontains
    split
    · next heq =>
      rw [heq, hold, Option.map_some, if_pos (name_of_get? hold)]
    · next hne =>
      cases hget : list.get? name with
      | none => rfl
      | some other => rw [Option.map_some, if_neg fun heq => hne ((name_of_get? hget).symm.trans heq)]
  · next hcontains =>
    have hnone : list.get? goal.name = none := by simpa [contains] using hcontains
    have happend : (⟨list.goals ++ [goal]⟩ : GoalList).get? name
        = (list.get? name).or (if name = goal.name then some goal else none) := by
      simp only [get?, List.find?_append, List.find?_singleton]
      by_cases heq : name = goal.name
      · simp [heq]
      · simp [heq, Ne.symm heq]
    rw [happend]
    split
    · next heq => rw [heq, hnone, Option.none_or]
    · rw [Option.or_none]

/-- What holds of all goals and of a new one holds of all when that is put in. -/
theorem forall_put {P : StoryGoal → Prop} (h : ∀ goal ∈ list.goals, P goal) (hgoal : P goal) :
    ∀ other ∈ (list.put goal).goals, P other := by
  intro other hmem
  unfold put at hmem
  split at hmem
  · obtain ⟨old, hold, rfl⟩ := List.mem_map.1 hmem
    split
    · exact hgoal
    · exact h old hold
  · rcases List.mem_append.1 hmem with hmem | hmem
    · exact h other hmem
    · exact List.mem_singleton.1 hmem ▸ hgoal

/-- No name comes twice by putting a goal. -/
theorem nodup_names_put (hnodup : list.names.Nodup) : (list.put goal).names.Nodup := by
  unfold put
  split
  · rw [modify, names_map (by intro other; split <;> simp_all)]
    exact hnodup
  · next hcontains =>
    have hfresh : goal.name ∉ list.names := fun hmem => hcontains (contains_iff.2 hmem)
    show ((list.goals ++ [goal]).map (·.name)).Nodup
    rw [List.map_append]
    refine List.nodup_append.2 ⟨hnodup, List.nodup_singleton _, fun a ha b hb => ?_⟩
    rintro rfl
    have heq : a = goal.name := List.mem_singleton.1 hb
    exact hfresh (heq ▸ ha)

/-- A goal that was erased is not found, and others are as before. -/
theorem get?_erase :
    (list.erase removed).get? name = if name = removed then none else list.get? name := by
  show List.find? _ (List.filter _ list.goals) = _
  rw [List.find?_filter]
  split
  · next heq =>
    refine List.find?_eq_none.2 fun goal _ => ?_
    simp [heq]
  · next hne =>
    unfold get?
    congr 1
    funext goal
    by_cases hname : goal.name = name
    · simp [hname, hne]
    · simp [hname]

/-- No name comes twice by erasing. -/
theorem nodup_names_erase (hnodup : list.names.Nodup) : (list.erase removed).names.Nodup :=
  hnodup.sublist (List.filter_sublist.map _)

/-! ## What was read

A goal is the reading of its text with notes of what was found out about it later. These notes play
no part in what is read. -/

/-- The text and the origin of each goal. -/
def content (list : GoalList) : String → Option (String × GoalOrigin) :=
  fun name => (list.get? name).map fun goal => (goal.text, goal.origin)

/-- The tree of each goal. -/
def trees (list : GoalList) : Trees := fun name => (list.get? name).map (·.tree)

/-- The tree of each goal is that of its text. -/
def IsRead (list : GoalList) : Prop := ∀ goal ∈ list.goals, goal.tree = (parseGoal goal.text).tree

/-- Reading a text gives its tree. -/
theorem tree_ofText (name uri text : String) (origin : GoalOrigin) :
    (StoryGoal.ofText name uri text origin).tree
      = (parseGoal (StoryGoal.ofText name uri text origin).text).tree := by
  simp only [StoryGoal.ofText]

section Known

variable {β : Type} (list : GoalList) (known : StoryGoal → β)

/-- What is known about goals by name, after one was put in. -/
theorem known_put (goal : StoryGoal) :
    (fun name => ((list.put goal).get? name).map known)
      = Function.update (fun name => (list.get? name).map known) goal.name (some (known goal)) := by
  funext name
  rw [get?_put]
  by_cases heq : name = goal.name
  · subst heq
    simp
  · simp [heq]

/-- What is known about goals by name, after one went. -/
theorem known_erase (removed : String) :
    (fun name => ((list.erase removed).get? name).map known)
      = Function.update (fun name => (list.get? name).map known) removed none := by
  funext name
  rw [get?_erase]
  by_cases heq : name = removed
  · subst heq
    simp
  · simp [heq]

/-- What is known about goals by name stays so where a change leaves it alone. -/
theorem known_map (hname : ∀ goal, (f goal).name = goal.name)
    (hknown : ∀ goal, known (f goal) = known goal) :
    (fun name => ((list.map f).get? name).map known) = fun name => (list.get? name).map known := by
  funext name
  rw [get?_map hname, Option.map_map]
  congr 1
  funext goal
  exact hknown goal

end Known

/-- Putting a goal sets its tree. -/
theorem trees_put (list : GoalList) (goal : StoryGoal) :
    (list.put goal).trees = Function.update list.trees goal.name (some goal.tree) :=
  list.known_put (·.tree) goal

/-- Erasing a goal takes its tree away. -/
theorem trees_erase (list : GoalList) (removed : String) :
    (list.erase removed).trees = Function.update list.trees removed none :=
  list.known_erase (·.tree) removed

/-- A goal that is not there has no tree to forget. -/
theorem update_trees_of_absent (habsent : ¬ list.contains name = true) :
    Function.update list.trees name none = list.trees := by
  have hnone : list.get? name = none := by simpa [contains] using habsent
  rw [Function.update_eq_self_iff, trees, hnone]
  rfl

/-- A list stays read if a goal is put that was read. -/
theorem IsRead.put (h : list.IsRead) (hgoal : goal.tree = (parseGoal goal.text).tree) :
    (list.put goal).IsRead :=
  forall_put h hgoal

/-- A list stays read if a goal is erased. -/
theorem IsRead.erase (h : list.IsRead) : (list.erase removed).IsRead :=
  fun goal hmem => h goal (List.mem_filter.1 hmem).1

/-- A change that leaves alone what was read. -/
structure Annotates (f : StoryGoal → StoryGoal) : Prop where
  name : ∀ goal, (f goal).name = goal.name
  text : ∀ goal, (f goal).text = goal.text
  origin : ∀ goal, (f goal).origin = goal.origin
  tree : ∀ goal, (f goal).tree = goal.tree

/-- Annotating goals leaves all trees. -/
theorem trees_map (hf : Annotates f) : (list.map f).trees = list.trees :=
  list.known_map (·.tree) hf.name hf.tree

/-- A list stays read if its goals are annotated. -/
theorem IsRead.map (h : list.IsRead) (hf : Annotates f) : (list.map f).IsRead := by
  intro goal hmem
  obtain ⟨old, hold, rfl⟩ := List.mem_map.1 hmem
  rw [hf.tree, hf.text]
  exact h old hold

/-- What was read tells the trees. -/
theorem IsRead.trees_eq (h : list.IsRead) (name : String) :
    list.trees name = (list.content name).map fun (text, _) => (parseGoal text).tree := by
  unfold trees content
  cases hget : list.get? name with
  | none => rfl
  | some goal => exact congrArg some (h goal (mem_of_get? hget))

/-! ## Weights

The weights of a list of goals are those of the graph that their trees describe, so that two lists
with the same trees weigh the same. -/

/-- The graph of a list has the names of the list. -/
theorem names_graph (list : GoalList) : list.graph.names = list.names := by
  simp [graph, GoalGraph.names, names, StoryGoal.toNode]

/-- The parents of a goal in the graph are those that its tree names. -/
theorem mem_links_graph (hnodup : list.names.Nodup) {parents : List String} :
    (name, parents) ∈ list.graph.links
      ↔ (list.trees name).map (fun tree => tree.parentEdges.map (·.1)) = some parents := by
  unfold GoalGraph.links graph trees
  rw [List.map_map, List.mem_map, Option.map_map, Option.map_eq_some_iff]
  constructor
  · rintro ⟨goal, hmem, hpair⟩
    obtain ⟨rfl, rfl⟩ := Prod.mk.inj hpair
    exact ⟨goal, get?_of_mem hnodup hmem, rfl⟩
  · rintro ⟨goal, hget, rfl⟩
    exact ⟨goal, mem_of_get? hget, Prod.ext (name_of_get? hget) rfl⟩

/-- **Goals that have the same parents by name weigh the same.** -/
theorem weights_of_parents (ha : a.names.Nodup) (hb : b.names.Nodup)
    (h : ∀ name, (a.trees name).map (fun tree => tree.parentEdges.map (·.1))
      = (b.trees name).map fun tree => tree.parentEdges.map (·.1)) : a.weights = b.weights := by
  have hnodup {list : GoalList} (hnames : list.names.Nodup) : list.graph.links.Nodup := by
    refine List.Nodup.of_map (·.1) ?_
    rw [← GoalGraph.names_eq, names_graph]
    exact hnames
  refine GoalGraph.weights_perm ((List.perm_ext_iff_of_nodup (hnodup ha) (hnodup hb)).2 ?_)
  rintro ⟨name, parents⟩
  rw [mem_links_graph ha, mem_links_graph hb, h]

/-- A weight tells a goal. -/
theorem eq_of_weight_eq {first second : String} (hsize : list.size ≤ 2 ^ 32)
    (hfirst : first ∈ list.names) (hsecond : second ∈ list.names)
    (hweight : list.weights.of first = list.weights.of second) : first = second := by
  rw [← names_graph] at hfirst hsecond
  refine GoalGraph.eq_of_weight_eq ?_ hfirst hsecond hweight
  simpa [graph, GoalGraph.size, size] using hsize

end GoalList

end StoryCheck
