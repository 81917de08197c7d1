import Mathlib.Data.List.Induction
import Mathlib.Data.Fintype.Card
import Mathlib.Data.Fintype.EquivFin
import Mathlib.Data.Fintype.Sets
import StoryCheck.Proofs.Goals.Preorder

/-!
# The tree of goals and its paths

The tree shows a goal under each of its parents, and breaks a cycle where it comes back to a goal
that is on the way already. So what a tree shows is what can be reached from its top without passing
a goal twice, each way once.

* **`IsPath`** — goals one below the other; `exists_simple_path` leaves out the detours.
* **`IsGrown`** — which goals stand below a goal of a tree, by the way to it. There is always room
  for them (`isGrown_subtree`).
* **`mem_paths_iff`**, **`nodup_paths`** — the ways through a tree.
* **`mem_root_iff`** — which roots start a tree.
* **`forest_shows_goals`** — what the trees below all roots show.
-/

namespace StoryCheck

/-! ## Ways through trees

A tree is known by its ways from the top down. That goals are shown once for each way is what the
tree is for, since a goal with two parents has two. -/

/-- The goal at the top of a tree. -/
def GoalTree.root : GoalTree → String
  | .node name _ _ => name

mutual

/-- The ways from the top of a tree down to each of its goals. -/
def GoalTree.paths : GoalTree → List (List String)
  | .node name _ children => [name] :: (GoalTree.pathsOfAll children).map (name :: ·)

/-- The ways through some trees. -/
def GoalTree.pathsOfAll : List GoalTree → List (List String)
  | [] => []
  | tree :: rest => tree.paths ++ GoalTree.pathsOfAll rest

end

namespace GoalTree

theorem pathsOfAll_eq (trees : List GoalTree) : pathsOfAll trees = trees.flatMap paths := by
  induction trees with
  | nil => rfl
  | cons tree rest ih => rw [pathsOfAll, ih, List.flatMap_cons]

theorem namesOfAll_append (first second : List GoalTree) :
    namesOfAll (first ++ second) = namesOfAll first ++ namesOfAll second := by
  induction first with
  | nil => rfl
  | cons tree first ih => rw [List.cons_append, namesOfAll, namesOfAll, ih, List.append_assoc]

mutual

/-- Each goal of a tree is where a way through it ends. -/
theorem map_getLast?_paths (tree : GoalTree) :
    tree.paths.map List.getLast? = tree.names.map some := by
  obtain ⟨name, isShared, children⟩ := tree
  have hlast : (fun path : List String => (name :: path).getLast?)
      = (fun last : Option String => some (last.getD name)) ∘ List.getLast? :=
    funext fun path => List.getLast?_cons
  rw [paths, names, List.map_cons, List.map_cons, List.map_map, Function.comp_def, hlast,
    ← List.map_map, map_getLast?_pathsOfAll children, List.map_map]
  rfl

theorem map_getLast?_pathsOfAll (trees : List GoalTree) :
    (pathsOfAll trees).map List.getLast? = (namesOfAll trees).map some := by
  match trees with
  | [] => rfl
  | tree :: rest =>
    rw [pathsOfAll, namesOfAll, List.map_append, List.map_append, map_getLast?_paths tree,
      map_getLast?_pathsOfAll rest]

end

/-- A goal is shown as often as a way ends at it. -/
theorem count_namesOfAll (trees : List GoalTree) (name : String) :
    (namesOfAll trees).count name
      = ((pathsOfAll trees).filter fun path => path.getLast? == some name).length := by
  have hlasts := congrArg (List.count (some name)) (map_getLast?_pathsOfAll trees)
  rw [List.count_map_of_injective _ some (Option.some_injective _), List.count_eq_countP,
    List.countP_map, List.countP_eq_length_filter] at hlasts
  exact hlasts.symm

end GoalTree

namespace GoalGraph

variable {graph graph' : GoalGraph} {name top goal parent child : String}
  {path way roots : List String} {tree : GoalTree} {trees : List GoalTree}

/-! ## Paths

A path may pass a goal twice, and on a cycle it does. What can be reached at all can be reached
without that, by leaving out what lies between the two visits. -/

/-- Goals one below the other, from a goal down to another. -/
inductive IsPath (graph : GoalGraph) : (top goal : String) → List String → Prop
  | here {goal : String} : IsPath graph goal goal [goal]
  | down {top child goal : String} {path : List String} (edge : graph.IsChild top child)
    (rest : IsPath graph child goal path) : IsPath graph top goal (top :: path)

namespace IsPath

theorem head?_eq (h : graph.IsPath top goal path) : path.head? = some top := by
  cases h <;> rfl

theorem getLast?_eq (h : graph.IsPath top goal path) : path.getLast? = some goal := by
  induction h with
  | here => rfl
  | down edge rest ih => rw [List.getLast?_cons, ih, Option.getD_some]

theorem top_mem (h : graph.IsPath top goal path) : top ∈ path :=
  List.mem_of_mem_head? h.head?_eq

theorem reaches (h : graph.IsPath top goal path) : Relation.ReflTransGen graph.IsChild top goal := by
  induction h with
  | here => exact .refl
  | down edge rest ih => exact .head edge ih

/-- A way goes on from each of its goals. -/
theorem exists_suffix (h : graph.IsPath top goal path) (hmem : name ∈ path) :
    ∃ rest, rest <:+ path ∧ graph.IsPath name goal rest := by
  induction h with
  | here =>
    obtain rfl := List.mem_singleton.1 hmem
    exact ⟨_, List.suffix_rfl, .here⟩
  | @down top child goal path edge rest ih =>
    rcases List.mem_cons.1 hmem with rfl | hmem
    · exact ⟨_, List.suffix_rfl, .down edge rest⟩
    · obtain ⟨rest, hsuffix, hpath⟩ := ih hmem
      exact ⟨rest, hsuffix.trans (List.suffix_cons top path), hpath⟩

/-- A goal reaches all that are on a way from it. -/
theorem reaches_of_mem (h : graph.IsPath top goal path) (hmem : name ∈ path) :
    Relation.ReflTransGen graph.IsChild top name := by
  induction h with
  | here =>
    obtain rfl := List.mem_singleton.1 hmem
    exact .refl
  | down edge rest ih =>
    rcases List.mem_cons.1 hmem with rfl | hmem
    · exact .refl
    · exact .head edge (ih hmem)

/-- Without a cycle no way passes a goal twice. -/
theorem nodup (h : graph.IsPath top goal path)
    (acyclic : ∀ name, ¬ Relation.TransGen graph.IsChild name name) : path.Nodup := by
  induction h with
  | here => exact List.nodup_singleton _
  | down edge rest ih =>
    exact List.nodup_cons.2 ⟨fun hmem => acyclic _ (.head' edge (rest.reaches_of_mem hmem)), ih⟩

end IsPath

/-- What can be reached can be reached without passing a goal twice. -/
theorem exists_simple_path (h : Relation.ReflTransGen graph.IsChild top goal) :
    ∃ path, graph.IsPath top goal path ∧ path.Nodup := by
  induction h using Relation.ReflTransGen.head_induction_on with
  | refl => exact ⟨_, .here, List.nodup_singleton _⟩
  | @head top child edge _ ih =>
    obtain ⟨path, hpath, hnodup⟩ := ih
    by_cases hmem : top ∈ path
    · -- The way comes back to where it starts, so that it can start there.
      obtain ⟨rest, hsuffix, hrest⟩ := hpath.exists_suffix hmem
      exact ⟨rest, hrest, hnodup.sublist hsuffix.sublist⟩
    · exact ⟨top :: path, .down edge hpath, List.nodup_cons.2 ⟨hmem, hnodup⟩⟩

/-! ## Trees

The tree below a goal goes on until a goal would stand below itself. A bound for its depth is given
with it, which is never met, as a way without repetitions is no longer than the list of all goals. -/

/-- A tree below a way, with the children of every goal in it: those that are not on the way to them
yet, each once and in the order of their names. -/
inductive IsGrown (graph : GoalGraph) : (way : List String) → GoalTree → Prop
  | node {way : List String} {name : String} {children : List GoalTree} (fresh : name ∉ way)
    (inOrder : InNameOrder (fun child => graph.IsChild name child ∧ child ∉ name :: way)
      (children.map GoalTree.root))
    (below : ∀ child ∈ children, IsGrown graph (name :: way) child) :
    IsGrown graph way (.node name (graph.isShared name) children)

theorem root_subtree (room : Nat) (way : List String) (name : String) :
    (graph.subtree room way name).root = name := by
  cases room <;> rfl

theorem InNameOrder.filter {P Q : String → Prop} [DecidablePred Q] {goals : List String}
    (h : InNameOrder P goals) : InNameOrder (fun name => P name ∧ Q name) (goals.filter (Q ·)) where
  sorted := h.sorted.filter _
  mem_iff := by
    intro name
    rw [List.mem_filter, h.mem_iff, decide_eq_true_iff]

/-- **There is room for all goals below a goal.** A way that goes through all goals has no one to go on
to. -/
theorem isGrown_subtree (distinct : graph.names.Nodup) {room : Nat} (hway : way ⊆ graph.names)
    (hnodup : way.Nodup) (hname : name ∈ graph.names) (hfresh : name ∉ way)
    (hroom : graph.size ≤ way.length + room) : graph.IsGrown way (graph.subtree room way name) := by
  have hlonger : (name :: way).length ≤ graph.size := by
    have hsubperm := List.subperm_of_subset (List.nodup_cons.2 ⟨hfresh, hnodup⟩)
      (List.cons_subset.2 ⟨hname, hway⟩)
    simpa [names, size] using hsubperm.length_le
  -- The way to a goal has no goal twice, so that the room left is enough for all goals off the way.
  induction room generalizing way name with
  | zero =>
    rw [List.length_cons] at hlonger
    omega
  | succ room ih =>
    have hbelow : ((graph.children name).filter fun child => !(name :: way).contains child)
        = (graph.children name).filter fun child => child ∉ name :: way := by
      simp
    have hroots : List.map GoalTree.root (((graph.children name).filter fun child =>
        child ∉ name :: way).map (graph.subtree room (name :: way)))
        = (graph.children name).filter fun child => child ∉ name :: way := by
      rw [List.map_map]
      exact (List.map_congr_left fun child _ => root_subtree room _ child).trans (List.map_id _)
    rw [subtree, hbelow]
    refine .node hfresh ?_ fun tree htree => ?_
    · rw [hroots]
      exact (inNameOrder_children distinct name).filter
    obtain ⟨child, hchild, rfl⟩ := List.mem_map.1 htree
    obtain ⟨hchild, hnew⟩ := List.mem_filter.1 hchild
    have hnew : child ∉ name :: way := of_decide_eq_true hnew
    have hway' : name :: way ⊆ graph.names := List.cons_subset.2 ⟨hname, hway⟩
    have hnodup' : (name :: way).Nodup := List.nodup_cons.2 ⟨hfresh, hnodup⟩
    have hsubperm := List.subperm_of_subset (List.nodup_cons.2 ⟨hnew, hnodup'⟩)
      (List.cons_subset.2 ⟨children_subset name hchild, hway'⟩)
    refine ih hway' hnodup' (children_subset name hchild) hnew ?_
      (by simpa [names, size] using hsubperm.length_le)
    rw [List.length_cons]
    omega

namespace IsGrown

/-- **The ways through a tree** are those from its top on that pass no goal twice. -/
theorem mem_paths_iff (h : graph.IsGrown way tree) :
    path ∈ tree.paths
      ↔ (∃ goal, graph.IsPath tree.root goal path) ∧ path.Nodup ∧ ∀ name ∈ path, name ∉ way := by
  -- Along the tree as it is grown. A path that goes on below must keep off the way, which by then
  -- has the goal itself.
  induction h generalizing path with
  | @node way name children fresh inOrder below ih =>
  rw [GoalTree.paths, GoalTree.pathsOfAll_eq, List.mem_cons, List.mem_map, GoalTree.root]
  constructor
  · rintro (rfl | ⟨rest, hrest, rfl⟩)
    · exact ⟨⟨name, .here⟩, List.nodup_singleton _, by simpa using fresh⟩
    · obtain ⟨child, hchild, hrest⟩ := List.mem_flatMap.1 hrest
      obtain ⟨⟨goal, hpath⟩, hnodup, hfresh⟩ := (ih child hchild).1 hrest
      have hedge := (inOrder.mem_iff.1 (List.mem_map_of_mem hchild)).1
      refine ⟨⟨goal, .down hedge hpath⟩, List.nodup_cons.2 ⟨fun hmem => ?_, hnodup⟩, ?_⟩
      · exact hfresh name hmem List.mem_cons_self
      · refine List.forall_mem_cons.2 ⟨fresh, fun other hmem hway => ?_⟩
        exact hfresh other hmem (List.mem_cons_of_mem name hway)
  · rintro ⟨⟨goal, hpath⟩, hnodup, hfresh⟩
    cases hpath with
    | here => exact .inl rfl
    | @down _ next _ rest edge hpath =>
      obtain ⟨hname, hnodup⟩ := List.nodup_cons.1 hnodup
      obtain ⟨-, hfresh⟩ := List.forall_mem_cons.1 hfresh
      have hfresh : ∀ other ∈ rest, other ∉ name :: way := by
        intro other hmem hway
        rcases List.mem_cons.1 hway with rfl | hway
        · exact hname hmem
        · exact hfresh other hmem hway
      obtain ⟨child, hchild, rfl⟩ :=
        List.mem_map.1 (inOrder.mem_iff.2 ⟨edge, hfresh next hpath.top_mem⟩)
      exact .inr ⟨rest, List.mem_flatMap.2 ⟨child, hchild, (ih child hchild).2
        ⟨⟨goal, hpath⟩, hnodup, hfresh⟩⟩, rfl⟩

end IsGrown

/-- No two of some trees have the same ways if none does and their tops differ. -/
theorem nodup_pathsOfAll (hgrown : ∀ tree ∈ trees, graph.IsGrown way tree)
    (hnodup : ∀ tree ∈ trees, tree.paths.Nodup) (hroots : (trees.map GoalTree.root).Nodup) :
    (GoalTree.pathsOfAll trees).Nodup := by
  rw [GoalTree.pathsOfAll_eq]
  refine List.nodup_flatMap.2 ⟨hnodup, ?_⟩
  refine (List.pairwise_map.1 hroots).imp_of_mem fun {first second} hfirst hsecond hne => ?_
  -- A way tells the top of its tree.
  refine List.disjoint_left.2 fun path hpath hother => hne ?_
  obtain ⟨⟨_, hpath⟩, -⟩ := (hgrown first hfirst).mem_paths_iff.1 hpath
  obtain ⟨⟨_, hother⟩, -⟩ := (hgrown second hsecond).mem_paths_iff.1 hother
  exact Option.some.inj (hpath.head?_eq.symm.trans hother.head?_eq)

/-- **A tree shows each way once.** -/
theorem IsGrown.nodup_paths (h : graph.IsGrown way tree) : tree.paths.Nodup := by
  induction h with
  | @node way name children fresh inOrder below ih =>
  rw [GoalTree.paths]
  refine List.nodup_cons.2 ⟨fun hmem => ?_, ?_⟩
  · obtain ⟨rest, hrest, heq⟩ := List.mem_map.1 hmem
    rw [GoalTree.pathsOfAll_eq] at hrest
    obtain ⟨child, hchild, hrest⟩ := List.mem_flatMap.1 hrest
    obtain ⟨⟨_, hpath⟩, -⟩ := (below child hchild).mem_paths_iff.1 hrest
    rw [(List.cons.inj heq).2] at hpath
    cases hpath
  · exact (nodup_pathsOfAll below ih inOrder.sorted.nodup).map (List.cons_injective)

/-- A tree shows what can be reached from its top. -/
theorem IsGrown.mem_names_iff (h : graph.IsGrown [] tree) :
    name ∈ tree.names ↔ Relation.ReflTransGen graph.IsChild tree.root name := by
  rw [← List.mem_map_of_injective (Option.some_injective _), ← GoalTree.map_getLast?_paths,
    List.mem_map]
  constructor
  · rintro ⟨path, hpath, hlast⟩
    obtain ⟨⟨goal, hpath⟩, -⟩ := h.mem_paths_iff.1 hpath
    rw [hpath.getLast?_eq] at hlast
    exact Option.some.inj hlast ▸ hpath.reaches
  · intro hreach
    obtain ⟨path, hpath, hnodup⟩ := exists_simple_path hreach
    exact ⟨path, h.mem_paths_iff.2 ⟨⟨name, hpath⟩, hnodup, fun _ _ => List.not_mem_nil⟩,
      hpath.getLast?_eq⟩

theorem mem_names_of_reaches (hname : name ∈ graph.names)
    (h : Relation.ReflTransGen graph.IsChild name goal) : goal ∈ graph.names := by
  cases h with
  | refl => exact hname
  | tail _ hedge =>
    obtain ⟨-, -, node, hnode, rfl, -⟩ := hedge
    exact List.mem_map_of_mem hnode

/-- What is above a lost goal is lost, too. -/
theorem IsLost.of_above (h : graph.IsLost name) (habove : Relation.TransGen graph.IsChild parent name) :
    graph.IsLost parent := by
  obtain ⟨_, hedge, -⟩ := Relation.TransGen.head'_iff.1 habove
  exact ⟨hedge.2.1, fun top htop hreach => h.2 top htop (hreach.trans habove.to_reflTransGen)⟩

/-! ## Trees below roots

The roots are taken in order, and one that has been shown by then is passed over. Which roots start
a tree is therefore a question about those before it. -/

/-- The trees below some roots: one that a tree before it shows starts none. -/
def treesBelow (graph : GoalGraph) (roots : List String) : List GoalTree :=
  roots.foldl
    (fun trees root =>
      if (GoalTree.namesOfAll trees).contains root then trees
      else trees ++ [graph.subtree graph.size [] root])
    []

theorem forest_eq (graph : GoalGraph) : graph.forest = graph.treesBelow graph.roots := rfl

theorem treesBelow_append_singleton (roots : List String) (root : String) :
    graph.treesBelow (roots ++ [root])
      = if root ∈ GoalTree.namesOfAll (graph.treesBelow roots) then graph.treesBelow roots
        else graph.treesBelow roots ++ [graph.subtree graph.size [] root] := by
  rw [treesBelow, List.foldl_append, List.foldl_cons, List.foldl_nil, ← treesBelow]
  simp only [List.contains_iff_mem]

section Distinct

variable (distinct : graph.names.Nodup)

include distinct

theorem isGrown_tree (hname : name ∈ graph.names) :
    graph.IsGrown [] (graph.subtree graph.size [] name) :=
  isGrown_subtree distinct (List.nil_subset _) List.nodup_nil hname List.not_mem_nil (by simp)

theorem isGrown_treesBelow (hroots : roots ⊆ graph.names) :
    ∀ tree ∈ graph.treesBelow roots, graph.IsGrown [] tree := by
  induction roots using List.reverseRecOn with
  | nil => exact nofun
  | append_singleton roots root ih =>
    obtain ⟨hroots, hroot⟩ := List.append_subset.1 hroots
    intro tree htree
    rw [treesBelow_append_singleton] at htree
    split at htree
    · exact ih hroots tree htree
    · rcases List.mem_append.1 htree with htree | htree
      · exact ih hroots tree htree
      · rw [List.mem_singleton.1 htree]
        exact isGrown_tree distinct (hroot List.mem_cons_self)

/-- Some trees show what can be reached from their roots. -/
theorem mem_namesOfAll_iff (hroots : roots ⊆ graph.names) :
    name ∈ GoalTree.namesOfAll (graph.treesBelow roots)
      ↔ ∃ root ∈ roots, Relation.ReflTransGen graph.IsChild root name := by
  induction roots using List.reverseRecOn generalizing name with
  | nil => simp [treesBelow, GoalTree.namesOfAll]
  | append_singleton roots root ih =>
    obtain ⟨hroots, hroot⟩ := List.append_subset.1 hroots
    have hlast : (∃ other ∈ roots ++ [root], Relation.ReflTransGen graph.IsChild other name)
        ↔ (∃ other ∈ roots, Relation.ReflTransGen graph.IsChild other name)
          ∨ Relation.ReflTransGen graph.IsChild root name := by
      simp [or_and_right, exists_or]
    rw [hlast, treesBelow_append_singleton]
    split
    next hshown =>
      -- What the root reaches is reached from where the root is shown.
      obtain ⟨other, hother, hreach⟩ := (ih hroots).1 hshown
      rw [ih hroots]
      exact ⟨.inl, fun h => h.elim id fun hbelow => ⟨other, hother, hreach.trans hbelow⟩⟩
    next =>
      have hgrown := isGrown_tree distinct (hroot List.mem_cons_self)
      rw [GoalTree.namesOfAll_append, List.mem_append, ih hroots, GoalTree.namesOfAll,
        GoalTree.namesOfAll, List.append_nil, hgrown.mem_names_iff, root_subtree]

/-- **A root starts a tree** unless it can be reached from one before it. -/
theorem mem_root_iff (hroots : roots ⊆ graph.names) :
    name ∈ (graph.treesBelow roots).map GoalTree.root
      ↔ ∃ before after, roots = before ++ name :: after
        ∧ ∀ root ∈ before, ¬ Relation.ReflTransGen graph.IsChild root name := by
  -- The last root is shown on top unless one before it reaches it. What the others show does not
  -- depend on it.
  induction roots using List.reverseRecOn with
  | nil => simp [treesBelow]
  | append_singleton roots root ih =>
    obtain ⟨hroots, -⟩ := List.append_subset.1 hroots
    have hsplit : (∃ before after, roots ++ [root] = before ++ name :: after
          ∧ ∀ other ∈ before, ¬ Relation.ReflTransGen graph.IsChild other name)
        ↔ (∃ before after, roots = before ++ name :: after
          ∧ ∀ other ∈ before, ¬ Relation.ReflTransGen graph.IsChild other name)
          ∨ name = root ∧ ∀ other ∈ roots, ¬ Relation.ReflTransGen graph.IsChild other root := by
      constructor
      · rintro ⟨before, after, heq, hnone⟩
        rcases List.eq_nil_or_concat after with rfl | ⟨after, last, rfl⟩
        · obtain ⟨rfl, hlast⟩ := List.append_inj' heq rfl
          obtain rfl := (List.cons.inj hlast).1
          exact .inr ⟨rfl, hnone⟩
        · rw [List.concat_eq_append, ← List.cons_append, ← List.append_assoc] at heq
          obtain ⟨rfl, -⟩ := List.append_inj' heq rfl
          exact .inl ⟨before, after, rfl, hnone⟩
      · rintro (⟨before, after, rfl, hnone⟩ | ⟨rfl, hnone⟩)
        · exact ⟨before, after ++ [root], by simp, hnone⟩
        · exact ⟨roots, [], rfl, hnone⟩
    have hshown : root ∈ GoalTree.namesOfAll (graph.treesBelow roots)
        ↔ ∃ other ∈ roots, Relation.ReflTransGen graph.IsChild other root :=
      mem_namesOfAll_iff distinct hroots
    rw [hsplit, ← ih hroots, treesBelow_append_singleton]
    split
    next h =>
      obtain ⟨other, hother, hreach⟩ := hshown.1 h
      exact ⟨.inl, fun h => h.elim id fun ⟨_, hnone⟩ => absurd hreach (hnone other hother)⟩
    next h =>
      have hnone : ∀ other ∈ roots, ¬ Relation.ReflTransGen graph.IsChild other root :=
        fun other hother hreach => h (hshown.2 ⟨other, hother, hreach⟩)
      rw [List.map_append, List.mem_append, List.map_singleton, List.mem_singleton, root_subtree]
      exact or_congr_right ⟨fun heq => ⟨heq, hnone⟩, fun h => h.1⟩

theorem nodup_roots_treesBelow (hroots : roots ⊆ graph.names) :
    ((graph.treesBelow roots).map GoalTree.root).Nodup := by
  induction roots using List.reverseRecOn with
  | nil => exact List.nodup_nil
  | append_singleton roots root ih =>
    have hfirst := (List.append_subset.1 hroots).1
    rw [treesBelow_append_singleton]
    split
    · exact ih hfirst
    next hshown =>
      rw [List.map_append, List.map_singleton, root_subtree]
      refine List.nodup_append.2 ⟨ih hfirst, List.nodup_singleton _, fun other hother last hlast heq => ?_⟩
      obtain ⟨before, after, hparts, -⟩ := (mem_root_iff distinct hfirst).1 hother
      have hmem : root ∈ roots := by
        rw [← List.mem_singleton.1 hlast, ← heq, hparts]
        exact List.mem_append_right before List.mem_cons_self
      exact hshown ((mem_namesOfAll_iff distinct hfirst).2 ⟨root, hmem, .refl⟩)

/-! ## The tree of all goals

The roots are the goals without a parent first and then those that none of these reaches, which
stand on a cycle or below one. -/

theorem roots_subset : graph.roots ⊆ graph.names :=
  List.append_subset.2
    ⟨topGoals_subset, fun _ hmem => ((inNameOrder_lost distinct).mem_iff.1 hmem).1⟩

theorem mem_roots_iff : name ∈ graph.roots ↔ graph.IsTop name ∨ graph.IsLost name := by
  rw [roots, List.mem_append, (inNameOrder_topGoals distinct).mem_iff,
    (inNameOrder_lost distinct).mem_iff]

/-- Every goal can be reached from a root. -/
theorem exists_root (hname : name ∈ graph.names) :
    ∃ root ∈ graph.roots, Relation.ReflTransGen graph.IsChild root name := by
  by_cases hlost : graph.IsLost name
  · exact ⟨name, (mem_roots_iff distinct).2 (.inr hlost), .refl⟩
  · obtain ⟨top, htop, hreach⟩ : ∃ top, graph.IsTop top
        ∧ Relation.ReflTransGen graph.IsChild top name := by
      simpa [IsLost, hname] using hlost
    exact ⟨top, (mem_roots_iff distinct).2 (.inl htop), hreach⟩

/-- The trees show all goals and nothing else. -/
theorem mem_names_forest : name ∈ GoalTree.namesOfAll graph.forest ↔ name ∈ graph.names := by
  rw [forest_eq, mem_namesOfAll_iff distinct (roots_subset distinct)]
  constructor
  · rintro ⟨root, hroot, hreach⟩
    exact mem_names_of_reaches (roots_subset distinct hroot) hreach
  · exact exists_root distinct

/-- A lost goal stands in front of those with larger names among the roots. -/
theorem pairwise_roots : graph.roots.Pairwise fun a b => graph.IsLost a → a < b := by
  have htops := inNameOrder_topGoals distinct
  have hlost := inNameOrder_lost distinct
  refine List.pairwise_append.2 ⟨?_, ?_, ?_⟩
  · refine htops.sorted.imp ?_
    exact fun hlt _ => hlt
  · refine hlost.sorted.imp ?_
    exact fun hlt _ => hlt
  · intro a ha b _ hlost
    exact absurd .refl (hlost.2 a (htops.mem_iff.1 ha))

/-- **Where the trees start:** at every goal without a parent, and at a lost one if it is the first by
name among those that reach it. -/
theorem mem_root_forest_iff :
    name ∈ graph.forest.map GoalTree.root ↔ graph.IsTop name
      ∨ graph.IsLost name ∧ ∀ above, Relation.TransGen graph.IsChild above name → name ≤ above := by
  rw [forest_eq, mem_root_iff distinct (roots_subset distinct)]
  -- The roots are the tops and behind them the lost goals in name order, and what reaches a lost
  -- goal is lost too. So an earlier root reaches a lost goal unless that is the least above itself.
  constructor
  · rintro ⟨before, after, heq, hnone⟩
    have hmem : name ∈ graph.roots := heq ▸ List.mem_append_right before List.mem_cons_self
    refine ((mem_roots_iff distinct).1 hmem).imp_right fun hlost => ⟨hlost, fun above habove => ?_⟩
    have hother : graph.IsLost above := hlost.of_above habove
    have hpairs := pairwise_roots distinct
    rw [heq] at hpairs
    have hroot : above ∈ before ++ name :: after := heq ▸ (mem_roots_iff distinct).2 (.inr hother)
    rcases List.mem_append.1 hroot with hbefore | hrest
    · exact absurd habove.to_reflTransGen (hnone above hbefore)
    · rcases List.mem_cons.1 hrest with rfl | hafter
      · exact le_rfl
      · exact ((List.pairwise_cons.1 (List.pairwise_append.1 hpairs).2.1).1 above hafter hlost).le
  · intro h
    obtain ⟨before, after, heq, hfirst⟩ :=
      List.eq_append_cons_of_mem ((mem_roots_iff distinct).2 (h.imp_right fun h => h.1))
    refine ⟨before, after, heq, fun root hroot hreach => ?_⟩
    obtain rfl | habove := Relation.reflTransGen_iff_eq_or_transGen.1 hreach
    · exact hfirst hroot
    rcases h with htop | ⟨hlost, hleast⟩
    · obtain ⟨parent, -, hedge⟩ := Relation.TransGen.tail'_iff.1 habove
      exact htop.2 parent hedge
    · have hpairs := pairwise_roots distinct
      rw [heq] at hpairs
      have hlt := (List.pairwise_append.1 hpairs).2.2 root hroot name List.mem_cons_self
      exact absurd (hleast root habove) (not_le.2 (hlt (hlost.of_above habove)))

theorem isGrown_forest : ∀ tree ∈ graph.forest, graph.IsGrown [] tree :=
  isGrown_treesBelow distinct (roots_subset distinct)

theorem nodup_paths_forest : (GoalTree.pathsOfAll graph.forest).Nodup :=
  nodup_pathsOfAll (isGrown_forest distinct)
    (fun tree htree => (isGrown_forest distinct tree htree).nodup_paths)
    (nodup_roots_treesBelow distinct (roots_subset distinct))

/-- The ways through all trees. -/
theorem mem_paths_forest :
    path ∈ GoalTree.pathsOfAll graph.forest
      ↔ path.Nodup ∧ ∃ root ∈ graph.forest.map GoalTree.root, ∃ goal, graph.IsPath root goal path := by
  rw [GoalTree.pathsOfAll_eq, List.mem_flatMap]
  simp only [List.mem_map, exists_exists_and_eq_and]
  constructor
  · rintro ⟨tree, htree, hpath⟩
    obtain ⟨hpath, hnodup, -⟩ := (isGrown_forest distinct tree htree).mem_paths_iff.1 hpath
    exact ⟨hnodup, tree, htree, hpath⟩
  · rintro ⟨hnodup, tree, htree, hpath⟩
    exact ⟨tree, htree, (isGrown_forest distinct tree htree).mem_paths_iff.2
      ⟨hpath, hnodup, fun _ _ => List.not_mem_nil⟩⟩

end Distinct

/-! ## Without cycles

If no goal stands below itself, going up comes to an end, and so every goal is below one without a
parent. -/

/-- Weights that grow along every edge leave no room for a cycle. -/
theorem acyclic_of_weights (weights : Weights)
    (hgrow : ∀ node ∈ graph.nodes, ∀ parent ∈ node.parents, parent ≠ node.name →
      parent ∈ graph.names → weights.of parent < weights.of node.name) (name : String) :
    ¬ Relation.TransGen graph.IsChild name name := by
  have hlt {above below : String} (h : Relation.TransGen graph.IsChild above below) :
      weights.of above < weights.of below := by
    induction h with
    | single edge =>
      obtain ⟨hne, hknown, node, hnode, rfl, hparent⟩ := edge
      exact hgrow node hnode _ hparent hne hknown
    | tail _ edge ih =>
      obtain ⟨hne, hknown, node, hnode, rfl, hparent⟩ := edge
      exact ih.trans (hgrow node hnode _ hparent hne hknown)
  exact fun h => lt_irrefl _ (hlt h)

section Acyclic

variable (acyclic : ∀ name, ¬ Relation.TransGen graph.IsChild name name)

include acyclic

/-- Going up ends at a goal without a parent. -/
theorem exists_top (hname : name ∈ graph.names) :
    ∃ top, graph.IsTop top ∧ Relation.ReflTransGen graph.IsChild top name := by
  -- There are finitely many goals, so that no goal has others above it without end.
  let above (a b : {name // name ∈ graph.names}) : Prop := Relation.TransGen graph.IsChild a.1 b.1
  have : IsTrans _ above := ⟨fun _ _ _ hab hbc => Relation.TransGen.trans hab hbc⟩
  have : Std.Irrefl above := ⟨fun a => acyclic a.1⟩
  have hwell : WellFounded above := Finite.wellFounded_of_trans_of_irrefl above
  induction hgoal : (⟨name, hname⟩ : {name // name ∈ graph.names}) using hwell.induction
    generalizing name with
  | _ goal ih =>
  subst hgoal
  by_cases htop : graph.IsTop name
  · exact ⟨name, htop, .refl⟩
  · obtain ⟨parent, hedge⟩ : ∃ parent, graph.IsChild parent name := by
      simpa [IsTop, hname] using htop
    obtain ⟨top, htop, hreach⟩ := ih ⟨parent, hedge.2.1⟩ (.single hedge) hedge.2.1 rfl
    exact ⟨top, htop, hreach.tail hedge⟩

/-- Trees start from the goals without a parent and from no others. -/
theorem mem_root_forest_iff_isTop (distinct : graph.names.Nodup) :
    name ∈ graph.forest.map GoalTree.root ↔ graph.IsTop name := by
  rw [mem_root_forest_iff distinct]
  refine ⟨fun h => h.resolve_right fun ⟨⟨hname, hnone⟩, _⟩ => ?_, .inl⟩
  obtain ⟨top, htop, hreach⟩ := exists_top acyclic hname
  exact hnone top htop hreach

/-- A goal is shown once for each way to it from a goal without a parent. -/
theorem exists_paths_of_acyclic (distinct : graph.names.Nodup) (name : String) :
    ∃ paths : List (List String), paths.Nodup
      ∧ (∀ path, path ∈ paths ↔ ∃ top, graph.IsTop top ∧ graph.IsPath top name path)
      ∧ (GoalTree.namesOfAll graph.forest).count name = paths.length := by
  refine ⟨_, (nodup_paths_forest distinct).filter fun path => path.getLast? == some name, fun path => ?_,
    GoalTree.count_namesOfAll graph.forest name⟩
  rw [List.mem_filter, mem_paths_forest distinct, beq_iff_eq]
  simp only [mem_root_forest_iff_isTop acyclic distinct]
  constructor
  · rintro ⟨⟨-, top, htop, goal, hpath⟩, hlast⟩
    obtain rfl := Option.some.inj (hpath.getLast?_eq.symm.trans hlast)
    exact ⟨top, htop, hpath⟩
  · rintro ⟨top, htop, hpath⟩
    exact ⟨⟨hpath.nodup acyclic, top, htop, name, hpath⟩, hpath.getLast?_eq⟩

end Acyclic

/-! ## The order of the goals

Children and roots are put in the order of their names, so that the order in which goals were named
has nothing left to decide. -/

section Perm

variable (h : graph.nodes.Perm graph'.nodes)

include h

theorem subtree_perm (room : Nat) (way : List String) (name : String) :
    graph.subtree room way name = graph'.subtree room way name := by
  have hshared (name : String) : graph.isShared name = graph'.isShared name := h.any_eq
  induction room generalizing way name with
  | zero => rw [subtree, subtree, hshared]
  | succ room ih =>
    have hsame : graph.subtree room (name :: way) = graph'.subtree room (name :: way) :=
      funext fun child => ih (name :: way) child
    rw [subtree, subtree, children_perm (h.map _), hshared, hsame]

/-- The tree does not hang on the order of the goals. -/
theorem forest_perm : graph.forest = graph'.forest := by
  have hsubtree : graph.subtree graph.size [] = graph'.subtree graph'.size [] := by
    rw [show graph.size = graph'.size from h.length_eq]
    exact funext fun name => subtree_perm h _ [] name
  rw [forest, forest, roots_perm (h.map _), hsubtree]

end Perm

/-- **The tree shows every goal, and only children below a goal.** It does not hang on the order in
which the goals are given. Below a goal stand its children but for those that are on the way to it
already, each once and in the order of their names, so that no way passes a goal twice. Without a
cycle a goal is shown once for each way to it from a goal without a parent. -/
theorem forest_shows_goals (distinct : graph.names.Nodup) :
    (∀ other : GoalGraph, other.nodes.Perm graph.nodes → other.forest = graph.forest)
      ∧ (∀ name, name ∈ GoalTree.namesOfAll graph.forest ↔ name ∈ graph.names)
      ∧ (∀ tree ∈ graph.forest, graph.IsGrown [] tree)
      ∧ (∀ path ∈ GoalTree.pathsOfAll graph.forest, path.Nodup)
      ∧ ((∀ name, ¬ Relation.TransGen graph.IsChild name name) → ∀ name,
        ∃ paths : List (List String), paths.Nodup
          ∧ (∀ path, path ∈ paths ↔ ∃ top, graph.IsTop top ∧ graph.IsPath top name path)
          ∧ (GoalTree.namesOfAll graph.forest).count name = paths.length) :=
  ⟨fun _ hperm => forest_perm hperm, fun _ => mem_names_forest distinct, isGrown_forest distinct,
    fun _ hpath => ((mem_paths_forest distinct).1 hpath).1,
    fun acyclic => exists_paths_of_acyclic acyclic distinct⟩

/-- A goal with two parents that have one themselves, which is named twice. -/
def crossing : GoalGraph where
  nodes := [⟨"Deep", ["Left", "Right", "Nowhere"], false⟩, ⟨"Right", ["Base", "Base"], false⟩,
    ⟨"Left", ["Base", "Left"], true⟩, ⟨"Base", [], false⟩]

/-- The goal is shown under each of its parents. -/
theorem crossing_is_shown :
    crossing.forest.map GoalTree.root = ["Base"]
      ∧ GoalTree.namesOfAll crossing.forest = ["Base", "Left", "Deep", "Right", "Deep"]
      ∧ (∀ tree ∈ crossing.forest, crossing.IsGrown [] tree)
      ∧ ∃ paths : List (List String), paths.Nodup ∧ paths.length = 2
        ∧ ∀ path, path ∈ paths ↔ ∃ top, crossing.IsTop top ∧ crossing.IsPath top "Deep" path := by
  have hdistinct : crossing.names.Nodup := by decide +kernel
  obtain ⟨-, -, hgrown, -, hcounts⟩ := forest_shows_goals hdistinct
  have hacyclic : ∀ name, ¬ Relation.TransGen crossing.IsChild name name :=
    acyclic_of_weights [("Base", 0), ("Left", 1), ("Right", 1), ("Deep", 2)] (by decide +kernel)
  obtain ⟨paths, hnodup, hpaths, hcount⟩ := hcounts hacyclic "Deep"
  have hnames : GoalTree.namesOfAll crossing.forest = ["Base", "Left", "Deep", "Right", "Deep"] := by
    cbv
  have hroots : crossing.forest.map GoalTree.root = ["Base"] := by cbv
  rw [hnames] at hcount
  exact ⟨hroots, hnames, hgrown, paths, hnodup, hcount.symm.trans (by decide), hpaths⟩

end GoalGraph

end StoryCheck
