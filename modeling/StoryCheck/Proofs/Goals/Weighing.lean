import Mathlib.Data.List.Nodup
import Mathlib.Data.List.Sort
import Mathlib.Data.String.Basic
import Mathlib.Logic.Relation
import StoryCheck.GoalTree

/-!
# Weighing goals

The weight of a goal is its place on the way down from the roots. Children and roots are taken in
the order of their names, so the weights do not hang on the order of the goals, and a goal is visited
once, so no two goals share a weight as long as 32 bits can number them.

* **`visit_append`**, **`nodup_visit`**, **`mem_visit_of_pending`** — going down visits what is
  pending, and nothing twice.
* **`mem_visit_iff`** — and what can be reached from there.
* **`mem_preorder`** — all goals and nothing else are on the way down.
* **`weights_perm`** — goals of the same names and parents have the same weights in every order.
* **`eq_of_weight_eq`** — a weight tells a goal.
-/

namespace StoryCheck

namespace GoalGraph

variable {graph graph' : GoalGraph} {next next' : String → List String}
  {visited pending : List String} {name : String}

/-! ## Going down

Goals come off a stack, and each puts its children in front of the others. A goal that was visited
or that is not known is passed over. -/

/-- With nothing pending, what was visited is the result. -/
theorem visit_nil : graph.visit next visited [] = visited := by
  rw [visit]

/-- A goal that is new is visited, and its children are pending before the others. -/
theorem visit_fresh (hknown : name ∈ graph.names) (hfresh : name ∉ visited) :
    graph.visit next visited (name :: pending)
      = graph.visit next (visited ++ [name]) (next name ++ pending) := by
  rw [visit, dif_pos ⟨hknown, hfresh⟩]

/-- Any other goal is passed over. -/
theorem visit_skip (hskip : ¬ (name ∈ graph.names ∧ name ∉ visited)) :
    graph.visit next visited (name :: pending) = graph.visit next visited pending := by
  rw [visit, dif_neg hskip]

/-- What is pending is visited from the front, so the pending goals can be cut in two. -/
theorem visit_append (first second : List String) :
    graph.visit next visited (first ++ second)
      = graph.visit next (graph.visit next visited first) second := by
  -- The first case is that of an empty stack, where the second list begins.
  induction visited, first using visit.induct graph next with
  | case1 visited => rw [List.nil_append, visit_nil]
  | case2 visited name pending h _ ih =>
    rw [List.cons_append, visit_fresh h.1 h.2, visit_fresh h.1 h.2, ← List.append_assoc]
    exact ih
  | case3 visited name pending h ih =>
    rw [List.cons_append, visit_skip h, visit_skip h]
    exact ih

/-- Nothing is visited twice. -/
theorem nodup_visit (hnodup : visited.Nodup) : (graph.visit next visited pending).Nodup := by
  induction visited, pending using visit.induct graph next with
  | case1 visited =>
    rw [visit_nil]
    exact hnodup
  | case2 visited name pending h _ ih =>
    rw [visit_fresh h.1 h.2]
    refine ih (List.nodup_append.2 ⟨hnodup, List.nodup_singleton name, fun a ha b hb => ?_⟩)
    rw [List.mem_singleton.1 hb]
    exact fun heq => h.2 (heq ▸ ha)
  | case3 visited name pending h ih =>
    rw [visit_skip h]
    exact ih hnodup

/-- What was visited stays so. -/
theorem subset_visit : visited ⊆ graph.visit next visited pending := by
  induction visited, pending using visit.induct graph next with
  | case1 visited =>
    rw [visit_nil]
    exact List.Subset.refl visited
  | case2 visited name pending h _ ih =>
    rw [visit_fresh h.1 h.2]
    exact fun other hmem => ih (List.mem_append_left _ hmem)
  | case3 visited name pending h ih =>
    rw [visit_skip h]
    exact ih

/-- What is pending is visited. -/
theorem mem_visit_of_pending (hknown : name ∈ graph.names) (hpending : name ∈ pending) :
    name ∈ graph.visit next visited pending := by
  induction visited, pending using visit.induct graph next with
  | case1 => cases hpending
  | case2 visited first pending h _ ih =>
    rw [visit_fresh h.1 h.2]
    rcases List.mem_cons.1 hpending with rfl | hmem
    · exact subset_visit (List.mem_append_right _ List.mem_cons_self)
    · exact ih (List.mem_append_right _ hmem)
  | case3 visited first pending h ih =>
    rw [visit_skip h]
    rcases List.mem_cons.1 hpending with rfl | hmem
    · exact subset_visit (not_not.1 fun hfresh => h ⟨hknown, hfresh⟩)
    · exact ih hmem

/-- Only known goals are visited. -/
theorem visit_subset (hvisited : visited ⊆ graph.names) :
    graph.visit next visited pending ⊆ graph.names := by
  induction visited, pending using visit.induct graph next with
  | case1 visited =>
    rw [visit_nil]
    exact hvisited
  | case2 visited name pending h _ ih =>
    rw [visit_fresh h.1 h.2]
    refine ih fun other hmem => ?_
    rcases List.mem_append.1 hmem with hmem | hmem
    · exact hvisited hmem
    · exact List.mem_singleton.1 hmem ▸ h.1
  | case3 visited name pending h ih =>
    rw [visit_skip h]
    exact ih hvisited

/-! ## What is reached

The order in which goals come off the stack tells nothing about which of them do. -/

/-- What holds of the goals on the stack and passes on to those that come next holds of all that
are visited. -/
theorem visit_forall {P : String → Prop} (hnext : ∀ goal, P goal → ∀ other ∈ next goal, P other)
    (hvisited : ∀ goal ∈ visited, P goal) (hpending : ∀ goal ∈ pending, P goal) :
    ∀ goal ∈ graph.visit next visited pending, P goal := by
  induction visited, pending using visit.induct graph next with
  | case1 visited =>
    rw [visit_nil]
    exact hvisited
  | case2 visited name pending h _ ih =>
    obtain ⟨hname, hpending⟩ := List.forall_mem_cons.1 hpending
    rw [visit_fresh h.1 h.2]
    refine ih (fun goal hmem => ?_) (fun goal hmem => ?_)
    · rcases List.mem_append.1 hmem with hmem | hmem
      · exact hvisited goal hmem
      · exact List.mem_singleton.1 hmem ▸ hname
    · rcases List.mem_append.1 hmem with hmem | hmem
      · exact hnext name hname goal hmem
      · exact hpending goal hmem
  | case3 visited name pending h ih =>
    rw [visit_skip h]
    exact ih hvisited (List.forall_mem_cons.1 hpending).2

/-- No goal that comes next to a visited one is left out, as long as none waits outside of the
stack. -/
theorem visit_closed
    (hwaits : ∀ goal ∈ visited, ∀ other ∈ next goal, other ∈ graph.names →
      other ∈ visited ∨ other ∈ pending) :
    ∀ goal ∈ graph.visit next visited pending, ∀ other ∈ next goal, other ∈ graph.names →
      other ∈ graph.visit next visited pending := by
  induction visited, pending using visit.induct graph next with
  | case1 visited =>
    rw [visit_nil]
    exact fun goal hgoal other hother hknown =>
      (hwaits goal hgoal other hother hknown).resolve_right List.not_mem_nil
  | case2 visited name pending h _ ih =>
    rw [visit_fresh h.1 h.2]
    refine ih fun goal hgoal other hother hknown => ?_
    rcases List.mem_append.1 hgoal with hgoal | hgoal
    · have := hwaits goal hgoal other hother hknown
      simp only [List.mem_append, List.mem_cons] at this ⊢
      tauto
    · obtain rfl := List.mem_singleton.1 hgoal
      exact .inr (List.mem_append_left _ hother)
  | case3 visited name pending h ih =>
    rw [visit_skip h]
    refine ih fun goal hgoal other hother hknown => ?_
    rcases hwaits goal hgoal other hother hknown with hmem | hmem
    · exact .inl hmem
    · rcases List.mem_cons.1 hmem with rfl | hmem
      · exact .inl (not_not.1 fun hfresh => h ⟨hknown, hfresh⟩)
      · exact .inr hmem

/-- **Going down finds what can be reached** from the goals on the stack. -/
theorem mem_visit_iff (hpending : pending ⊆ graph.names)
    (hnext : ∀ goal, next goal ⊆ graph.names) :
    name ∈ graph.visit next [] pending
      ↔ ∃ start ∈ pending, Relation.ReflTransGen (fun goal other => other ∈ next goal) start name := by
  constructor
  · refine visit_forall (P := fun name => ∃ start ∈ pending, Relation.ReflTransGen _ start name)
      ?_ (List.forall_mem_nil _) (fun goal hgoal => ⟨goal, hgoal, .refl⟩) name
    rintro goal ⟨start, hstart, hreach⟩ other hother
    exact ⟨start, hstart, hreach.tail hother⟩
  · rintro ⟨start, hstart, hreach⟩
    induction hreach with
    | refl => exact mem_visit_of_pending (hpending hstart) hstart
    | tail _ hother ih =>
      exact visit_closed (List.forall_mem_nil _) _ ih _ hother (hnext _ hother)

/-- The goals that pass a test are goals. -/
theorem sorted_filter_subset (test : GoalNode → Bool) :
    ((graph.nodes.filter test).map (·.name)).mergeSort ⊆ graph.names := by
  intro name hmem
  obtain ⟨node, hnode, rfl⟩ := List.mem_map.1 (List.mem_mergeSort.1 hmem)
  exact List.mem_map.2 ⟨node, (List.mem_filter.1 hnode).1, rfl⟩

/-- Children are goals that are known. -/
theorem children_subset (name : String) : graph.children name ⊆ graph.names :=
  sorted_filter_subset _

/-- Goals on top are goals that are known. -/
theorem topGoals_subset : graph.topGoals ⊆ graph.names := sorted_filter_subset _

/-- A goal is reached just if there is a way down to it from a goal on top. -/
theorem mem_reached_iff :
    name ∈ graph.reached ↔ ∃ top ∈ graph.topGoals,
      Relation.ReflTransGen (fun goal child => child ∈ graph.children goal) top name := by
  have hpending : graph.topGoals.reverse ⊆ graph.names := List.reverse_subset.2 topGoals_subset
  rw [reached, mem_visit_iff hpending fun goal => List.reverse_subset.2 (children_subset goal)]
  simp only [List.mem_reverse]

/-! ## All goals

The goals that are not reached from the top are on circles or hang below one. They are started from
in turn, by name, so that every goal has a place in the end. -/

/-- Going down from one root after the other is going down from all of them. -/
theorem foldl_visit (visited roots : List String) :
    roots.foldl (fun visited root => graph.visit next visited [root]) visited
      = graph.visit next visited roots := by
  induction roots generalizing visited with
  | nil => exact visit_nil.symm
  | cons root roots ih =>
    rw [List.foldl_cons, ih, ← visit_append]
    rfl

/-- Going down from one root after the other is going down from all of them at once. -/
theorem preorder_eq (graph : GoalGraph) :
    graph.preorder = graph.visit graph.children [] graph.roots := foldl_visit [] graph.roots

/-- No goal has two places. -/
theorem nodup_preorder (graph : GoalGraph) : graph.preorder.Nodup := by
  rw [preorder_eq]
  exact nodup_visit List.nodup_nil

/-- **All goals and nothing else are on the way down from the roots.** -/
theorem mem_preorder : name ∈ graph.preorder ↔ name ∈ graph.names := by
  rw [preorder_eq]
  constructor
  · exact fun hmem => visit_subset (List.nil_subset _) hmem
  · intro hknown
    rw [roots, visit_append]
    by_cases hreached : name ∈ graph.reached
    · refine subset_visit ((mem_visit_iff topGoals_subset children_subset).2 ?_)
      exact mem_reached_iff.1 hreached
    · refine mem_visit_of_pending hknown (List.mem_mergeSort.2 (List.mem_filter.2 ⟨hknown, ?_⟩))
      exact decide_eq_true hreached

/-- No more goals are numbered than there are. -/
theorem length_preorder_le (graph : GoalGraph) : graph.preorder.length ≤ graph.size := by
  have hsubset : graph.preorder ⊆ graph.names := fun _ hmem => mem_preorder.1 hmem
  have hle := (List.subperm_of_subset graph.nodup_preorder hsubset).length_le
  simpa [names, size] using hle

/-! ## The order of the goals

The goals of a story come in some order, which is that of a hash map or of a list. Everything here
takes children and roots in the order of their names, so it only depends on which goals there are
and what their parents are. -/

/-- Sorted names are in order. -/
theorem pairwise_mergeSort_names (names : List String) : names.mergeSort.Pairwise (· ≤ ·) := by
  have hsort : names.mergeSort.Pairwise fun a b => decide (a ≤ b) = true := List.pairwise_mergeSort
    (fun a b c hab hbc => decide_eq_true ((of_decide_eq_true hab).trans (of_decide_eq_true hbc)))
    (fun a b => by simpa using le_total a b) names
  exact hsort.imp of_decide_eq_true

/-- Sorting by name forgets the order. -/
theorem mergeSort_eq_of_perm {l₁ l₂ : List String} (h : l₁.Perm l₂) :
    l₁.mergeSort = l₂.mergeSort := by
  have hperm : l₁.mergeSort.Perm l₂.mergeSort :=
    ((List.mergeSort_perm l₁ _).trans h).trans (List.mergeSort_perm l₂ _).symm
  exact hperm.eq_of_pairwise (fun a b _ _ => le_antisymm) (pairwise_mergeSort_names l₁)
    (pairwise_mergeSort_names l₂)

/-- The names of the goals, each with its parents. -/
def links (graph : GoalGraph) : List (String × List String) :=
  graph.nodes.map fun node => (node.name, node.parents)

/-- The names of the goals, with their parents left out. -/
theorem names_eq (graph : GoalGraph) : graph.names = graph.links.map (·.1) := by
  rw [names, links, List.map_map]
  rfl

/-- The names of the goals that pass a test of names and parents. -/
theorem map_name_filter (graph : GoalGraph) (test : String × List String → Bool) :
    (graph.nodes.filter fun node => test (node.name, node.parents)).map (·.name)
      = (graph.links.filter test).map (·.1) := by
  rw [links, List.filter_map, List.map_map]
  rfl

section Perm

variable (h : graph.links.Perm graph'.links)

include h

/-- The same goals have the same names in another order. -/
theorem names_perm : graph.names.Perm graph'.names := by
  rw [names_eq, names_eq]
  exact h.map _

/-- A name is known in both orders or in neither. -/
theorem contains_names (name : String) : graph.names.contains name = graph'.names.contains name := by
  rw [Bool.eq_iff_iff, List.contains_iff_mem, List.contains_iff_mem]
  exact (names_perm h).mem_iff

/-- The children of a goal are the same list in every order of the goals. -/
theorem children_perm (name : String) : graph.children name = graph'.children name := by
  refine mergeSort_eq_of_perm ?_
  have htest (graph : GoalGraph) := map_name_filter graph fun (own, parents) =>
    name != own && parents.contains name && graph.names.contains name
  show ((graph.nodes.filter _).map _).Perm ((graph'.nodes.filter _).map _)
  refine (List.Perm.of_eq (htest graph)).trans (.trans ?_ (List.Perm.of_eq (htest graph').symm))
  rw [contains_names h name]
  exact (h.filter _).map _

/-- The goals on top are the same list in every order of the goals. -/
theorem topGoals_perm : graph.topGoals = graph'.topGoals := by
  refine mergeSort_eq_of_perm ?_
  have htest (graph : GoalGraph) := map_name_filter graph fun (own, parents) =>
    !parents.any fun parent =>
      parent != own && parents.contains parent && graph.names.contains parent
  refine (List.Perm.of_eq (htest graph)).trans (.trans ?_ (List.Perm.of_eq (htest graph').symm))
  simp only [contains_names h]
  exact (h.filter _).map _

/-- Going down gives the same list in every order of the goals. -/
theorem visit_perm (visited pending : List String) :
    graph.visit next visited pending = graph'.visit next visited pending := by
  -- It only asks whether a name is known and what its children are.
  induction visited, pending using visit.induct graph next with
  | case1 visited => rw [visit_nil, visit_nil]
  | case2 visited name pending hvisit _ ih =>
    rw [visit_fresh hvisit.1 hvisit.2, ih,
      visit_fresh ((names_perm h).mem_iff.1 hvisit.1) hvisit.2]
  | case3 visited name pending hskip ih =>
    rw [visit_skip hskip, ih, visit_skip fun hvisit => hskip ⟨(names_perm h).mem_iff.2 hvisit.1, hvisit.2⟩]

/-- The roots are the same list in every order of the goals. -/
theorem roots_perm : graph.roots = graph'.roots := by
  have hreached : graph.reached = graph'.reached := by
    unfold reached
    rw [show graph.children = graph'.children from funext (children_perm h), topGoals_perm h,
      visit_perm h]
  unfold roots
  rw [topGoals_perm h, hreached]
  refine congrArg _ (mergeSort_eq_of_perm ?_)
  exact (names_perm h).filter _

/-- **The weights do not hang on the order of the goals.** -/
theorem weights_perm : graph.weights = graph'.weights := by
  have hchildren : graph.children = graph'.children := funext (children_perm h)
  rw [weights, weights, preorder_eq, preorder_eq, hchildren, roots_perm h, visit_perm h]

end Perm

/-! ## Telling goals apart

All goals are on the way down, each once. So each has a weight, and no other goal has the same. -/

/-- Every goal has a weight. -/
theorem isSome_find?_weights (hname : name ∈ graph.names) :
    (graph.weights.find? fun (other, _) => other == name).isSome := by
  obtain ⟨place, hplace⟩ := List.mem_iff_getElem?.1 (mem_preorder.2 hname)
  refine List.find?_isSome.2 ⟨(name, min place Weights.unranked), ?_, beq_self_eq_true name⟩
  exact List.mem_map.2 ⟨(name, place), List.mem_zipIdx_iff_getElem?.2 hplace, rfl⟩

/-- The weight of a goal is its place on the way down. -/
theorem exists_place (hname : name ∈ graph.names) :
    ∃ place, graph.preorder[place]? = some name
      ∧ graph.weights.of name = min place Weights.unranked := by
  obtain ⟨⟨other, weight⟩, hfound⟩ := Option.isSome_iff_exists.1 (isSome_find?_weights hname)
  have hother : other = name := by simpa using List.find?_some hfound
  obtain ⟨⟨found, place⟩, hplace, hpair⟩ := List.mem_map.1 (List.mem_of_find?_eq_some hfound)
  obtain ⟨rfl, rfl⟩ := Prod.mk.inj hpair
  refine ⟨place, hother ▸ List.mem_zipIdx_iff_getElem?.1 hplace, ?_⟩
  rw [Weights.of, hfound]
  rfl

/-- Every goal has a weight. -/
theorem mem_weights (hname : name ∈ graph.names) : (name, graph.weights.of name) ∈ graph.weights := by
  obtain ⟨place, hplace, hweight⟩ := exists_place hname
  rw [hweight]
  exact List.mem_map.2 ⟨(name, place), List.mem_zipIdx_iff_getElem?.2 hplace, rfl⟩

/-- **A weight tells a goal**, unless there are more goals than 32 bits can number. -/
theorem eq_of_weight_eq {first second : String} (hsize : graph.size ≤ 2 ^ 32)
    (hfirst : first ∈ graph.names) (hsecond : second ∈ graph.names)
    (hweight : graph.weights.of first = graph.weights.of second) : first = second := by
  obtain ⟨i, hi, hi_weight⟩ := exists_place hfirst
  obtain ⟨j, hj, hj_weight⟩ := exists_place hsecond
  have hi_lt := (List.getElem?_eq_some_iff.1 hi).1
  have hj_lt := (List.getElem?_eq_some_iff.1 hj).1
  have hlength := graph.length_preorder_le
  have hplace : i = j := by
    rw [hi_weight, hj_weight] at hweight
    unfold Weights.unranked at hweight
    omega
  rw [hplace, hj] at hi
  exact (Option.some.inj hi).symm

end GoalGraph

end StoryCheck
