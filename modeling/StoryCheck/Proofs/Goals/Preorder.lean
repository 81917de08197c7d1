import StoryCheck.Proofs.Goals.Weighing
import Mathlib.Data.List.Permutation
import Mathlib.Data.Set.Function

/-!
# Weights and the order from the roots down

The weights are taken off a stack, on which a goal may stand several times. What they come to is told
here without one, by a recursion: a goal is numbered, then the goals below it, child by child, and
what has been numbered already is left out.

* **`IsChild`**, **`IsTop`**, **`IsLost`** — what the parents of the goals say about them.
* **`Descends`** — the recursion; it has one outcome (`Descends.unique`).
* **`descends_visit`** — emptying the stack is the recursion.
* **`IsPreorder`** — the order of all goals, from the tops and then from the lost ones.
* **`weights_number_preorder`** — the weights number the goals in that order.
-/

namespace StoryCheck

namespace GoalGraph

variable {graph : GoalGraph} {name parent child : String}

/-! ## What the parents say

Parents are given by name. A name that no goal has says nothing, and one that is given twice says no
more than once. -/

/-- A goal has another one as its parent. A parent that does not exist counts for nothing. -/
def IsChild (graph : GoalGraph) (parent child : String) : Prop :=
  parent ≠ child ∧ parent ∈ graph.names
    ∧ ∃ node ∈ graph.nodes, node.name = child ∧ parent ∈ node.parents

/-- A goal without a parent. -/
def IsTop (graph : GoalGraph) (name : String) : Prop :=
  name ∈ graph.names ∧ ∀ parent, ¬ graph.IsChild parent name

/-- A goal that cannot be reached from those without a parent. -/
def IsLost (graph : GoalGraph) (name : String) : Prop :=
  name ∈ graph.names ∧ ∀ top, graph.IsTop top → ¬ Relation.ReflTransGen graph.IsChild top name

/-- Some goals, each once, in the order of their names. -/
structure InNameOrder (P : String → Prop) (goals : List String) : Prop where
  sorted : goals.Pairwise (· < ·)
  mem_iff : ∀ {name}, name ∈ goals ↔ P name

namespace InNameOrder

variable {P Q : String → Prop} {goals others : List String}

theorem congr (h : InNameOrder P goals) (hiff : ∀ name, P name ↔ Q name) : InNameOrder Q goals :=
  ⟨h.sorted, h.mem_iff.trans (hiff _)⟩

/-- There is one such list. -/
theorem unique (h : InNameOrder P goals) (hother : InNameOrder P others) : goals = others := by
  have hperm : goals.Perm others := (List.perm_ext_iff_of_nodup h.sorted.nodup
    hother.sorted.nodup).2 fun _ => h.mem_iff.trans hother.mem_iff.symm
  exact hperm.eq_of_pairwise (fun a b _ _ hab hba => absurd hab (lt_asymm hba)) h.sorted hother.sorted

/-- Sorting gives it. -/
theorem mergeSort (hnodup : goals.Nodup) : InNameOrder (· ∈ goals) goals.mergeSort := by
  refine ⟨?_, List.mem_mergeSort⟩
  have hsorted : goals.mergeSort.Nodup := (List.mergeSort_perm goals _).nodup_iff.2 hnodup
  exact (pairwise_mergeSort_names goals).imp₂ (fun a b hle hne => lt_of_le_of_ne hle hne) hsorted

end InNameOrder

theorem isChildOf_iff {node : GoalNode} :
    graph.isChildOf node parent = true
      ↔ parent ≠ node.name ∧ parent ∈ graph.names ∧ parent ∈ node.parents := by
  simp only [isChildOf, Bool.and_eq_true, bne_iff_ne, List.contains_iff_mem]
  tauto

section Distinct

variable (distinct : graph.names.Nodup)

include distinct

/-- The goals that pass a test are distinct, too. -/
theorem nodup_filter (test : GoalNode → Bool) : ((graph.nodes.filter test).map (·.name)).Nodup :=
  distinct.sublist (List.filter_sublist.map _)

/-- Children come in the order of their names. -/
theorem inNameOrder_children (name : String) :
    InNameOrder (graph.IsChild name) (graph.children name) := by
  refine (InNameOrder.mergeSort (nodup_filter distinct _)).congr fun child => ?_
  simp only [List.mem_map, List.mem_filter, isChildOf_iff]
  constructor
  · rintro ⟨node, ⟨hnode, hne, hknown, hparent⟩, rfl⟩
    exact ⟨hne, hknown, node, hnode, rfl, hparent⟩
  · rintro ⟨hne, hknown, node, hnode, rfl, hparent⟩
    exact ⟨node, ⟨hnode, hne, hknown, hparent⟩, rfl⟩

/-- A goal has a parent if it is a child. -/
theorem hasParent_iff {node : GoalNode} (hnode : node ∈ graph.nodes) :
    graph.hasParent node = true ↔ ∃ parent, graph.IsChild parent node.name := by
  simp only [hasParent, List.any_eq_true, isChildOf_iff]
  constructor
  · rintro ⟨parent, hparent, hne, hknown, -⟩
    exact ⟨parent, hne, hknown, node, hnode, rfl, hparent⟩
  · rintro ⟨parent, hne, hknown, other, hother, hname, hparent⟩
    -- No other goal has the name, so the parents are those of this one.
    obtain rfl := List.inj_on_of_nodup_map distinct hother hnode hname
    exact ⟨parent, hparent, hne, hknown, hparent⟩

theorem inNameOrder_topGoals : InNameOrder graph.IsTop graph.topGoals := by
  refine (InNameOrder.mergeSort (nodup_filter distinct _)).congr fun name => ?_
  simp only [List.mem_map, List.mem_filter, Bool.not_eq_true', ← Bool.not_eq_true]
  constructor
  · rintro ⟨node, ⟨hnode, htop⟩, rfl⟩
    rw [hasParent_iff distinct hnode] at htop
    exact ⟨List.mem_map.2 ⟨node, hnode, rfl⟩, not_exists.1 htop⟩
  · rintro ⟨hknown, htop⟩
    obtain ⟨node, hnode, rfl⟩ := List.mem_map.1 hknown
    exact ⟨node, ⟨hnode, (hasParent_iff distinct hnode).not.2 (not_exists.2 htop)⟩, rfl⟩

/-- Which goals are reached does not hang on the order in which they come off the stack. -/
theorem mem_reached_iff_isTop :
    name ∈ graph.reached
      ↔ ∃ top, graph.IsTop top ∧ Relation.ReflTransGen graph.IsChild top name := by
  have hchild : (fun goal child => child ∈ graph.children goal) = graph.IsChild := by
    funext goal child
    exact propext (inNameOrder_children distinct goal).mem_iff
  rw [mem_reached_iff, hchild]
  exact exists_congr fun top => and_congr_left' (inNameOrder_topGoals distinct).mem_iff

theorem inNameOrder_lost :
    InNameOrder graph.IsLost (graph.unvisited graph.reached).mergeSort := by
  refine (InNameOrder.mergeSort (distinct.filter _)).congr fun name => ?_
  rw [List.mem_filter, decide_eq_true_iff, mem_reached_iff_isTop distinct]
  exact and_congr_right' (by simp only [not_exists, not_and])

end Distinct

/-! ## The recursion

Going down is described as a relation, which does not speak of a stack. It has one outcome, and the
loop over the stack computes it. -/

/-- Going down from some goals, one after the other, when some goals have been numbered already: a
goal that has not is numbered, and then those below it, before the next one has its turn. -/
inductive Descends (graph : GoalGraph) : (numbered goals after : List String) → Prop
  | done {numbered : List String} : Descends graph numbered [] numbered
  | skip {goal : String} {numbered goals after : List String} (old : goal ∈ numbered)
    (rest : Descends graph numbered goals after) : Descends graph numbered (goal :: goals) after
  | number {goal : String} {numbered goals children between after : List String}
    (fresh : goal ∉ numbered) (inOrder : InNameOrder (graph.IsChild goal) children)
    (below : Descends graph (numbered ++ [goal]) children between)
    (rest : Descends graph between goals after) : Descends graph numbered (goal :: goals) after

namespace Descends

variable {numbered goals after other : List String}

/-- The recursion has one outcome. -/
theorem unique (h : graph.Descends numbered goals after) (hother : graph.Descends numbered goals other) :
    after = other := by
  induction h generalizing other with
  | done =>
    cases hother
    rfl
  | skip old _ ih =>
    cases hother with
    | skip _ hrest => exact ih hrest
    | number fresh => exact absurd old fresh
  | number fresh inOrder _ _ ihBelow ihRest =>
    cases hother with
    | skip old => exact absurd old fresh
    | number _ hinOrder hbelow hrest =>
      obtain rfl := inOrder.unique hinOrder
      obtain rfl := ihBelow hbelow
      exact ihRest hrest

/-- Going down from two lists of goals is going down from one, then from the other. -/
theorem of_append {first second : List String}
    (h : graph.Descends numbered (first ++ second) after) :
    ∃ between, graph.Descends numbered first between ∧ graph.Descends between second after := by
  induction first generalizing numbered with
  | nil => exact ⟨numbered, .done, h⟩
  | cons goal first ih =>
    cases h with
    | skip old hrest =>
      obtain ⟨between, hfirst, hsecond⟩ := ih hrest
      exact ⟨between, .skip old hfirst, hsecond⟩
    | number fresh inOrder hbelow hrest =>
      obtain ⟨between, hfirst, hsecond⟩ := ih hrest
      exact ⟨between, .number fresh inOrder hbelow hfirst, hsecond⟩

end Descends

/-- **Emptying the stack is the recursion.** -/
theorem descends_visit (distinct : graph.names.Nodup) {visited pending : List String}
    (hpending : pending ⊆ graph.names) :
    graph.Descends visited pending (graph.visit graph.children visited pending) := by
  induction visited, pending using visit.induct graph graph.children with
  | case1 visited =>
    rw [visit_nil]
    exact .done
  | case2 visited name pending h _ ih =>
    rw [visit_fresh h.1 h.2]
    -- The children lie on top of what was pending, so the recursion comes to the end of them first.
    have hstack : graph.children name ++ pending ⊆ graph.names :=
      List.append_subset.2 ⟨children_subset name, (List.cons_subset.1 hpending).2⟩
    obtain ⟨between, hbelow, hrest⟩ := (ih hstack).of_append
    exact .number h.2 (inNameOrder_children distinct name) hbelow hrest
  | case3 visited name pending h ih =>
    obtain ⟨hknown, hpending⟩ := List.cons_subset.1 hpending
    rw [visit_skip h]
    exact .skip (not_not.1 fun hfresh => h ⟨hknown, hfresh⟩) (ih hpending)

/-- The order of all goals from the roots down: first those without a parent are gone down from,
then those that cannot be reached from them. -/
def IsPreorder (graph : GoalGraph) (order : List String) : Prop :=
  ∃ tops lost, InNameOrder graph.IsTop tops ∧ InNameOrder graph.IsLost lost
    ∧ graph.Descends [] (tops ++ lost) order

theorem isPreorder_iff (distinct : graph.names.Nodup) {order : List String} :
    graph.IsPreorder order ↔ order = graph.preorder := by
  have htops := inNameOrder_topGoals distinct
  have hlost := inNameOrder_lost distinct
  have hroots : graph.roots ⊆ graph.names :=
    List.append_subset.2 ⟨topGoals_subset, fun _ hmem => (hlost.mem_iff.1 hmem).1⟩
  have hpreorder : graph.Descends [] graph.roots graph.preorder := by
    rw [preorder_eq]
    exact descends_visit distinct hroots
  constructor
  · rintro ⟨tops, lost, htops', hlost', hdescends⟩
    obtain rfl := htops'.unique htops
    obtain rfl := hlost'.unique hlost
    exact hdescends.unique hpreorder
  · rintro rfl
    exact ⟨_, _, htops, hlost, hpreorder⟩

/-! ## The numbers

The places on the way down are the weights, as long as there are numbers enough. -/

theorem preorder_perm (distinct : graph.names.Nodup) : graph.preorder.Perm graph.names :=
  (List.perm_ext_iff_of_nodup graph.nodup_preorder distinct).2 fun _ => mem_preorder

/-- As long as 32 bits can number the goals, their weights are their places. -/
theorem weights_eq_zipIdx (few : graph.size ≤ 2 ^ 32) : graph.weights = graph.preorder.zipIdx := by
  unfold weights
  conv_rhs => rw [← List.map_id graph.preorder.zipIdx]
  refine List.map_congr_left fun ⟨name, index⟩ hmem => ?_
  have hlt := (List.getElem?_eq_some_iff.1 (List.mem_zipIdx_iff_getElem?.1 hmem)).1
  have hlength := graph.length_preorder_le
  have hranked : index ≤ Weights.unranked := by
    unfold Weights.unranked
    omega
  simp only [Nat.min_eq_left hranked, id]

/-- The weights are the numbers from zero on, each of one goal. -/
theorem bijOn_weights (distinct : graph.names.Nodup) (few : graph.size ≤ 2 ^ 32) :
    Set.BijOn graph.weights.of {name | name ∈ graph.names} (Set.Iio graph.size) := by
  have hlength : graph.preorder.length = graph.size := by
    rw [(preorder_perm distinct).length_eq, names, List.length_map, size]
  have hplace {name : String} (hname : name ∈ graph.names) :
      ∃ place, graph.preorder[place]? = some name ∧ place < graph.size
        ∧ graph.weights.of name = place := by
    obtain ⟨place, hplace, hweight⟩ := exists_place hname
    have hlt := (List.getElem?_eq_some_iff.1 hplace).1
    unfold Weights.unranked at hweight
    exact ⟨place, hplace, by omega, by omega⟩
  refine ⟨fun name hname => ?_, fun first hfirst second hsecond => ?_, fun place hlt => ?_⟩
  · obtain ⟨place, -, hlt, hweight⟩ := hplace hname
    exact hweight ▸ hlt
  · exact eq_of_weight_eq few hfirst hsecond
  · have hlt : place < graph.preorder.length := hlength ▸ hlt
    have hname : graph.preorder[place] ∈ graph.names := mem_preorder.1 (List.getElem_mem hlt)
    obtain ⟨place', hplace', -, hweight⟩ := hplace hname
    obtain ⟨hlt', hget⟩ := List.getElem?_eq_some_iff.1 hplace'
    obtain rfl := (graph.nodup_preorder.getElem_inj_iff).1 hget
    exact ⟨_, hname, hweight⟩

/-- **The weights number the goals from the roots down.** Going down by the recursion has one
outcome, in which every goal has one place, and that is its weight. The weights are the numbers from
zero on, each of one goal, and do not hang on the order in which the goals are given. -/
theorem weights_number_preorder (distinct : graph.names.Nodup) (few : graph.size ≤ 2 ^ 32) :
    ∃ order, (∀ other, graph.IsPreorder other ↔ other = order)
      ∧ order.Perm graph.names ∧ graph.weights = order.zipIdx
      ∧ Set.BijOn graph.weights.of {name | name ∈ graph.names} (Set.Iio graph.size)
      ∧ ∀ other : GoalGraph, other.nodes.Perm graph.nodes → other.weights = graph.weights :=
  ⟨graph.preorder, fun _ => isPreorder_iff distinct, preorder_perm distinct, weights_eq_zipIdx few,
    bijOn_weights distinct few, fun _ hperm => weights_perm (hperm.map _)⟩

/-- Two goals that name each other, a goal that names itself and one that does not exist, and a goal
below both. -/
def tangled : GoalGraph where
  nodes := [⟨"Ring", ["Hoop"], true⟩, ⟨"Hoop", ["Ring"], false⟩,
    ⟨"Gift", ["Start", "Hoop", "Start"], false⟩, ⟨"Start", ["Start", "Nowhere"], false⟩]

/-- The circle comes after the goal without a parent, and is entered by its first name. -/
theorem tangled_is_numbered :
    tangled.weights = [("Start", 0), ("Gift", 1), ("Hoop", 2), ("Ring", 3)]
      ∧ tangled.IsPreorder ["Start", "Gift", "Hoop", "Ring"]
      ∧ (⟨tangled.nodes.reverse⟩ : GoalGraph).weights = tangled.weights := by
  have hdistinct : tangled.names.Nodup := by decide +kernel
  have hfew : tangled.size ≤ 2 ^ 32 := by decide +kernel
  obtain ⟨order, hpreorder, -, hweights, -, hperm⟩ := weights_number_preorder hdistinct hfew
  have hnumbers : tangled.weights
      = [("Start", 0), ("Gift", 1), ("Hoop", 2), ("Ring", 3)] := by cbv
  have horder : ["Start", "Gift", "Hoop", "Ring"] = order := by
    have hnames := congrArg (List.map Prod.fst) (hweights.symm.trans hnumbers)
    rw [List.zipIdx_map_fst] at hnames
    exact hnames.symm
  exact ⟨hnumbers, (hpreorder _).2 horder, hperm _ (List.reverse_perm _)⟩

end GoalGraph

end StoryCheck
