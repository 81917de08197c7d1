import StoryCheck.Proofs.Goals.Forest

/-!
# Goals below their parents

Goals without a parent start trees, and so do some of the goals that cannot be reached from them.
Those are not only the goals on a cycle, but also what hangs off it, and they are taken in the order
of their names. So a goal with a parent may come before all of its parents.

* **`IsAnchored`** — something above a goal is taken before it.
* **`exists_earlier_parent`**, **`no_earlier_parent`** — which goals have a parent that is numbered
  before them.
* **`hangs_below_parent_iff`** — a goal with a parent stands below it in the tree and in the numbers
  exactly if it is anchored.
-/

namespace StoryCheck

namespace GoalGraph

variable {graph : GoalGraph} {next : String → List String} {visited pending before after : List String}
  {name parent root first second : String}

/-! ## Going down

The stack holds what is still to be visited. A goal on it was put there by its parent, or was there
from the start. -/

theorem prefix_visit (graph : GoalGraph) (next : String → List String)
    (visited pending : List String) : visited <+: graph.visit next visited pending := by
  induction visited, pending using visit.induct graph next with
  | case1 visited => rw [visit_nil]
  | case2 visited name pending h _ ih =>
    rw [visit_fresh h.1 h.2]
    exact (List.prefix_append visited [name]).trans ih
  | case3 visited name pending h ih =>
    rw [visit_skip h]
    exact ih

/-- A goal that was not on the stack at first was put there from one that was visited before it. -/
theorem exists_visited_before (hmem : name ∈ graph.visit next visited pending)
    (hnew : name ∉ visited) (hlater : name ∉ pending) :
    ∃ parent front back, graph.visit next visited pending = front ++ name :: back
      ∧ parent ∈ front ∧ name ∈ next parent := by
  induction visited, pending using visit.induct graph next with
  | case1 visited =>
    rw [visit_nil] at hmem
    exact absurd hmem hnew
  | case2 visited goal pending h _ ih =>
    rw [visit_fresh h.1 h.2] at hmem ⊢
    rw [List.mem_cons, not_or] at hlater
    obtain ⟨hne, hlater⟩ := hlater
    have hnew : name ∉ visited ++ [goal] := by simp [hnew, hne]
    by_cases hnext : name ∈ next goal
    · -- What has been visited stands in front, and the goal is part of that.
      obtain ⟨rest, hrest⟩ := prefix_visit graph next (visited ++ [goal]) (next goal ++ pending)
      rw [← hrest] at hmem ⊢
      obtain ⟨front, back, rfl⟩ := List.append_of_mem ((List.mem_append.1 hmem).resolve_left hnew)
      exact ⟨goal, visited ++ [goal] ++ front, back, by simp, by simp, hnext⟩
    · exact ih hmem hnew (by simp [hnext, hlater])
  | case3 visited goal pending h ih =>
    rw [visit_skip h] at hmem ⊢
    exact ih hmem hnew fun hwaits => hlater (List.mem_cons_of_mem goal hwaits)

/-! ## The numbers

That a goal has the smaller weight is read as a statement about lists: it stands earlier on the way
down. -/

/-- One goal is numbered before another. The numbers end with the 32 bits for them, but the table of
weights goes on in the order of numbering. -/
def IsNumberedBefore (graph : GoalGraph) (first second : String) : Prop :=
  ∃ front back, graph.weights.map (·.1) = front ++ second :: back ∧ first ∈ front

theorem map_fst_weights (graph : GoalGraph) : graph.weights.map (·.1) = graph.preorder := by
  rw [weights, List.map_map]
  exact List.zipIdx_map_fst 0 graph.preorder

/-- As long as the bits suffice, a goal that is numbered before another has a smaller number. -/
theorem isNumberedBefore_iff (few : graph.size ≤ 2 ^ 32) (hfirst : first ∈ graph.names)
    (hsecond : second ∈ graph.names) :
    graph.IsNumberedBefore first second ↔ graph.weights.of first < graph.weights.of second := by
  obtain ⟨i, hi, hweight⟩ := exists_place hfirst
  obtain ⟨j, hj, hweight'⟩ := exists_place hsecond
  obtain ⟨hi_lt, hi⟩ := List.getElem?_eq_some_iff.1 hi
  obtain ⟨hj_lt, hj⟩ := List.getElem?_eq_some_iff.1 hj
  have hnodup := graph.nodup_preorder
  have hlength := graph.length_preorder_le
  -- Weights count up along the preorder, which has no goal twice: the comparison is one of places.
  have hplaces : graph.weights.of first < graph.weights.of second ↔ i < j := by
    rw [hweight, hweight', Weights.unranked]
    omega
  rw [hplaces, IsNumberedBefore, map_fst_weights]
  constructor
  · rintro ⟨front, back, heq, hmem⟩
    obtain ⟨k, hk, hget⟩ := List.getElem_of_mem hmem
    have hsame : graph.preorder[k]? = some first := by
      rw [heq, List.getElem?_append_left hk, List.getElem?_eq_getElem hk, hget]
    have hlast : graph.preorder[front.length]? = some second := by simp [heq]
    obtain ⟨hk_lt, hsame⟩ := List.getElem?_eq_some_iff.1 hsame
    obtain ⟨hfront_lt, hlast⟩ := List.getElem?_eq_some_iff.1 hlast
    obtain rfl := (hnodup.getElem_inj_iff).1 (hi.trans hsame.symm)
    obtain rfl := (hnodup.getElem_inj_iff).1 (hj.trans hlast.symm)
    exact hk
  · intro hlt
    refine ⟨graph.preorder.take j, graph.preorder.drop (j + 1), ?_, ?_⟩
    · rw [← hj, List.getElem_cons_drop, List.take_append_drop]
    · rw [← hi]
      exact List.mem_take_iff_getElem.2 ⟨i, by omega, rfl⟩

/-! ## Parents

A goal is reached from the first root that reaches it. If that root is another goal, there is a
parent on the way from it, which is visited before the goal. If it is the goal itself, its parents
are all reached from it and come later. -/

/-- Something above the goal is taken before it: a goal without a parent, or one with a smaller
name. -/
def IsAnchored (graph : GoalGraph) (name : String) : Prop :=
  (∃ top, graph.IsTop top ∧ Relation.ReflTransGen graph.IsChild top name)
    ∨ ∃ above, Relation.TransGen graph.IsChild above name ∧ above < name

section Distinct

variable (distinct : graph.names.Nodup)

include distinct

theorem isChild_eq : (fun goal child => child ∈ graph.children goal) = graph.IsChild := by
  funext goal child
  exact propext (inNameOrder_children distinct goal).mem_iff

/-- What is gone down from some roots is what can be reached from them. -/
theorem mem_visit_roots_iff (hroots : before ⊆ graph.names) :
    name ∈ graph.visit graph.children [] before
      ↔ ∃ root ∈ before, Relation.ReflTransGen graph.IsChild root name := by
  rw [mem_visit_iff hroots children_subset, isChild_eq distinct]

/-- A goal that is reached from roots other than itself is numbered behind a parent. -/
theorem exists_earlier_parent (hroots : graph.roots = before ++ after) (hnew : name ∉ before)
    (hroot : root ∈ before) (hreach : Relation.ReflTransGen graph.IsChild root name) :
    ∃ parent, graph.IsChild parent name ∧ graph.IsNumberedBefore parent name := by
  have hsubset : before ⊆ graph.names :=
    (List.append_subset.1 (hroots ▸ roots_subset distinct)).1
  have hmem := (mem_visit_roots_iff distinct hsubset).2 ⟨root, hroot, hreach⟩
  obtain ⟨parent, front, back, hvisit, hparent, hchild⟩ :=
    exists_visited_before hmem List.not_mem_nil hnew
  refine ⟨parent, (inNameOrder_children distinct parent).mem_iff.1 hchild, front, ?_⟩
  rw [map_fst_weights, preorder_eq, hroots, visit_append, hvisit]
  obtain ⟨rest, hrest⟩ := prefix_visit graph graph.children (front ++ name :: back) after
  exact ⟨back ++ rest, by rw [← hrest, List.append_assoc, List.cons_append], hparent⟩

/-- A root that none of those before it reaches is numbered before all of its parents. -/
theorem no_earlier_parent (hroots : graph.roots = before ++ name :: after)
    (hnone : ∀ root ∈ before, ¬ Relation.ReflTransGen graph.IsChild root name)
    (hedge : graph.IsChild parent name) : ¬ graph.IsNumberedBefore parent name := by
  rintro ⟨front, back, heq, hparent⟩
  obtain ⟨hbefore, hname⟩ := List.append_subset.1 (hroots ▸ roots_subset distinct)
  have hfresh : name ∉ graph.visit graph.children [] before := by
    rw [mem_visit_roots_iff distinct hbefore]
    rintro ⟨root, hroot, hreach⟩
    exact hnone root hroot hreach
  have hpreorder := preorder_eq graph
  rw [hroots, visit_append, visit_fresh (hname List.mem_cons_self) hfresh] at hpreorder
  obtain ⟨rest, hrest⟩ := prefix_visit graph graph.children
    (graph.visit graph.children [] before ++ [name]) (graph.children name ++ after)
  rw [← hrest, List.append_assoc, List.singleton_append] at hpreorder
  rw [map_fst_weights] at heq
  have hnodup := graph.nodup_preorder
  -- The goal stands in one place, so what is in front of it is what the roots before it reach.
  have hlater : name ∉ front ∧ name ∉ back := by
    rw [heq, List.nodup_middle, List.nodup_cons, List.mem_append, not_or] at hnodup
    exact hnodup.1
  obtain ⟨rfl, -, -⟩ := (List.append_cons_inj_of_notMem hlater.1 hlater.2).1 (heq.symm.trans hpreorder)
  obtain ⟨root, hroot, hreach⟩ := (mem_visit_roots_iff distinct hbefore).1 hparent
  exact hnone root hroot (hreach.tail hedge)

/-- A goal with a parent starts a tree exactly if it is not anchored. -/
theorem mem_root_forest_iff_not_isAnchored (hedge : graph.IsChild parent name) :
    name ∈ graph.forest.map GoalTree.root ↔ ¬ graph.IsAnchored name := by
  have htop : ¬ graph.IsTop name := fun htop => htop.2 parent hedge
  have hname : name ∈ graph.names := mem_names_of_reaches hedge.2.1 (.single hedge)
  rw [mem_root_forest_iff distinct, or_iff_right htop, IsAnchored, not_or, IsLost,
    and_iff_right hname]
  simp only [not_exists, not_and, not_lt]

theorem exists_earlier_parent_iff (hedge : graph.IsChild parent name) :
    (∃ parent, graph.IsChild parent name ∧ graph.IsNumberedBefore parent name)
      ↔ graph.IsAnchored name := by
  have hname : name ∈ graph.names := mem_names_of_reaches hedge.2.1 (.single hedge)
  have hstarts := mem_root_forest_iff_not_isAnchored distinct hedge
  rw [forest_eq, mem_root_iff distinct (roots_subset distinct)] at hstarts
  constructor
  · rintro ⟨parent, hedge, hbefore⟩
    by_contra hfree
    obtain ⟨before, after, hroots, hnone⟩ := hstarts.2 hfree
    exact no_earlier_parent distinct hroots hnone hedge hbefore
  · intro hanchored
    by_cases hroot : name ∈ graph.roots
    · obtain ⟨before, after, hroots, hnew⟩ := List.eq_append_cons_of_mem hroot
      obtain ⟨root, hroot, hreach⟩ : ∃ root ∈ before, Relation.ReflTransGen graph.IsChild root name := by
        by_contra hnone
        exact hstarts.1 ⟨before, after, hroots, by simpa using hnone⟩ hanchored
      exact exists_earlier_parent distinct hroots hnew hroot hreach
    · obtain ⟨root, hroot', hreach⟩ := exists_root distinct hname
      exact exists_earlier_parent distinct (List.append_nil _).symm hroot hroot' hreach

end Distinct

/-! ## Goals off a cycle

A goal that hangs off a cycle is no part of it. Its place among the roots goes by its name, like
that of the goals on the cycle. -/

/-- **A goal with a parent stands below a parent exactly if something above it is taken before it:**
then it starts no tree, and is numbered after one of its parents. The numbers say so as long as there
are no more goals than 32 bits can number. -/
theorem hangs_below_parent_iff (distinct : graph.names.Nodup)
    (hparent : ∃ parent, graph.IsChild parent name) :
    (name ∉ graph.forest.map GoalTree.root ↔ graph.IsAnchored name)
      ∧ ((∃ parent, graph.IsChild parent name ∧ graph.IsNumberedBefore parent name)
        ↔ graph.IsAnchored name)
      ∧ (graph.size ≤ 2 ^ 32 →
        ((∃ parent, graph.IsChild parent name ∧ graph.weights.of parent < graph.weights.of name)
          ↔ graph.IsAnchored name)) := by
  obtain ⟨parent, hedge⟩ := hparent
  have hname : name ∈ graph.names := mem_names_of_reaches hedge.2.1 (.single hedge)
  have hearlier := exists_earlier_parent_iff distinct hedge
  refine ⟨?_, hearlier, fun few => ?_⟩
  · rw [mem_root_forest_iff_not_isAnchored distinct hedge, not_not]
  · rw [← hearlier]
    exact exists_congr fun parent => and_congr_right fun hedge =>
      (isNumberedBefore_iff few hedge.2.1 hname).symm

/-- The goal below both others is reached from the one without a parent. -/
theorem gift_hangs_below_start :
    "Gift" ∉ tangled.forest.map GoalTree.root
      ∧ ∃ parent, tangled.IsChild parent "Gift"
        ∧ tangled.weights.of parent < tangled.weights.of "Gift" := by
  have hdistinct : tangled.names.Nodup := by decide +kernel
  have hedge : tangled.IsChild "Start" "Gift" :=
    ⟨by decide, by decide +kernel, ⟨"Gift", ["Start", "Hoop", "Start"], false⟩, by decide +kernel,
      rfl, by decide⟩
  have htop : tangled.IsTop "Start" :=
    (inNameOrder_topGoals hdistinct).mem_iff.1 (by decide +kernel)
  have hanchored : tangled.IsAnchored "Gift" := .inl ⟨"Start", htop, .single hedge⟩
  obtain ⟨hstarts, -, hnumbers⟩ := hangs_below_parent_iff hdistinct ⟨"Start", hedge⟩
  exact ⟨hstarts.2 hanchored, (hnumbers (by decide +kernel)).2 hanchored⟩

/-- Two goals that name each other, and a goal below one of them. -/
def pendant : GoalGraph where
  nodes := [⟨"Moon", ["Noon"], false⟩, ⟨"Noon", ["Moon"], false⟩, ⟨"Apple", ["Moon"], false⟩]

/-- **A goal that hangs off a cycle may come before its parent,** if its name does. -/
theorem pendant_goal_comes_first :
    (∃ parent, pendant.IsChild parent "Apple")
      ∧ ¬ Relation.TransGen pendant.IsChild "Apple" "Apple"
      ∧ "Apple" ∈ pendant.forest.map GoalTree.root
      ∧ ∀ parent, pendant.IsChild parent "Apple" →
        pendant.weights.of "Apple" < pendant.weights.of parent := by
  have hweights : pendant.weights = [("Apple", 0), ("Moon", 1), ("Noon", 2)] := by cbv
  have hroots : pendant.forest.map GoalTree.root = ["Apple", "Moon"] := by cbv
  have hparents : ∀ node ∈ pendant.nodes, node.name = "Apple" →
      ∀ parent ∈ node.parents, pendant.weights.of "Apple" < pendant.weights.of parent := by
    rw [hweights]
    decide +kernel
  have hchildren : ∀ node ∈ pendant.nodes, "Apple" ∉ node.parents := by decide +kernel
  refine ⟨⟨"Moon", by decide, by decide +kernel, ⟨"Apple", ["Moon"], false⟩, by decide +kernel, rfl,
    by decide⟩, fun hcycle => ?_, hroots ▸ List.mem_cons_self, ?_⟩
  · obtain ⟨child, ⟨-, -, node, hnode, -, hparent⟩, -⟩ := Relation.TransGen.head'_iff.1 hcycle
    exact hchildren node hnode hparent
  · rintro parent ⟨-, -, node, hnode, hname, hparent⟩
    exact hparents node hnode hname parent hparent

end GoalGraph

end StoryCheck
