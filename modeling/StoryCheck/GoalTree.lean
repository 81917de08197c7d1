import StoryCheck.Weights
/-!
# The tree of goals

A goal names its parents, and the children of a goal are the goals that name it. Names of goals
that do not exist count for nothing, and neither does a goal that names itself.

The tree starts from the goals without a parent, in the order of their names. Goals that cannot be
reached from those lie on a cycle or below one; they come after the rest as further roots. Going
down from the roots, children in the order of their names, numbers the goals: that is their
weight.
-/

namespace StoryCheck

/-- A goal as far as the tree is concerned. -/
structure GoalNode where
  name : String
  /-- The goals it names as its parents, whether they exist or not. -/
  parents : List String
  /-- Whether it belongs to other projects too. -/
  isShared : Bool
deriving DecidableEq, Repr, Inhabited

/-- Goals with their parents. A name stands in it once. -/
structure GoalGraph where
  nodes : List GoalNode
deriving DecidableEq, Repr, Inhabited

namespace GoalGraph

/-- The names of all goals. -/
def names (graph : GoalGraph) : List String := graph.nodes.map (·.name)

/-- Number of goals. -/
def size (graph : GoalGraph) : Nat := graph.nodes.length

/-- Whether `parent` is one of the goals that a goal has as its parents. -/
def isChildOf (graph : GoalGraph) (node : GoalNode) (parent : String) : Bool :=
  parent != node.name && node.parents.contains parent && graph.names.contains parent

/-- Whether a goal has a parent that exists. -/
def hasParent (graph : GoalGraph) (node : GoalNode) : Bool :=
  node.parents.any (graph.isChildOf node)

/-- The children of a goal by name. -/
def children (graph : GoalGraph) (name : String) : List String :=
  ((graph.nodes.filter fun node => graph.isChildOf node name).map (·.name)).mergeSort

/-! ## Going down -/

/-- A stricter test that drops a member of the list keeps fewer. -/
theorem length_filter_lt {α : Type} {p q : α → Bool} {x : α} {xs : List α}
    (stricter : ∀ y, p y = true → q y = true) (mem : x ∈ xs) (kept : q x = true)
    (dropped : p x = false) : (xs.filter p).length < (xs.filter q).length := by
  have le (ys : List α) : (ys.filter p).length ≤ (ys.filter q).length := by
    simp only [← List.countP_eq_length_filter]
    exact List.countP_mono_left fun y _ => stricter y
  induction mem with
  | head rest =>
    have := le rest
    simp only [List.filter_cons, kept, dropped, if_true, List.length_cons]
    simp only [Bool.false_eq_true, if_false]
    omega
  | tail y _ ih =>
    by_cases hp : p y = true
    · simpa [List.filter_cons, hp, stricter y hp] using ih
    · by_cases hq : q y = true
      · simp only [List.filter_cons, hp, hq, if_true, List.length_cons]
        simp only [Bool.false_eq_true, if_false]
        omega
      · simpa [List.filter_cons, hp, hq] using ih

/-- The goals that have not been visited yet. -/
def unvisited (graph : GoalGraph) (visited : List String) : List String :=
  graph.names.filter fun name => name ∉ visited

/-- Visiting a goal leaves fewer to visit. -/
theorem length_unvisited_lt (graph : GoalGraph) {visited : List String} {name : String}
    (known : name ∈ graph.names) (fresh : name ∉ visited) :
    (graph.unvisited (visited ++ [name])).length < (graph.unvisited visited).length :=
  length_filter_lt (by simp; exact fun _ h _ => h) known (by simpa using fresh) (by simp)

/-- Takes goals from a stack until it is empty. A goal that has not been visited yet is visited, and
those that come `next` to it are put on top of the stack. A goal may stand on the stack several
times; it is visited where it is met first. -/
def visit (graph : GoalGraph) (next : String → List String) (visited : List String) :
    (stack : List String) → List String
  | [] => visited
  | name :: stack =>
    if h : name ∈ graph.names ∧ name ∉ visited then
      have := graph.length_unvisited_lt h.1 h.2
      visit graph next (visited ++ [name]) (next name ++ stack)
    else
      visit graph next visited stack
termination_by stack => ((graph.unvisited visited).length, stack.length)
decreasing_by
  · exact Prod.Lex.left _ _ this
  · exact Prod.Lex.right _ (by simp)

/-- The goals without a parent by name. -/
def topGoals (graph : GoalGraph) : List String :=
  ((graph.nodes.filter fun node => !graph.hasParent node).map (·.name)).mergeSort

/-- The goals that can be reached from those without a parent. Lists are put on the stack as they
are, so the last goal of each is taken first. -/
def reached (graph : GoalGraph) : List String :=
  graph.visit (fun name => (graph.children name).reverse) [] graph.topGoals.reverse

/-- Where the tree starts: the goals without a parent, then those that cannot be reached from
them. -/
def roots (graph : GoalGraph) : List String :=
  graph.topGoals ++ (graph.unvisited graph.reached).mergeSort

/-- All goals from the roots down, one root after the other. Children are put on the stack from the
last to the first. -/
def preorder (graph : GoalGraph) : List String :=
  graph.roots.foldl (fun visited root => graph.visit graph.children visited [root]) []

/-- The weight of every goal: its place from the roots down. -/
def weights (graph : GoalGraph) : Weights :=
  graph.preorder.zipIdx.map fun (name, index) => (name, min index Weights.unranked)

end GoalGraph

/-! ## The tree -/

/-- A goal with the goals below it. -/
inductive GoalTree where
  | node (name : String) (isShared : Bool) (children : List GoalTree)
deriving Repr, Inhabited

mutual

/-- The goals of a tree. -/
def GoalTree.names : GoalTree → List String
  | .node name _ children => name :: GoalTree.namesOfAll children

/-- The goals of some trees. -/
def GoalTree.namesOfAll : List GoalTree → List String
  | [] => []
  | tree :: rest => tree.names ++ GoalTree.namesOfAll rest

end

namespace GoalGraph

/-- Whether a goal belongs to other projects too. -/
def isShared (graph : GoalGraph) (name : String) : Bool :=
  graph.nodes.any fun node => node.name == name && node.isShared

/-- A goal with the goals below it. A goal that is on the path from the root is left out, so no
path is longer than `room`, the number of goals. -/
def subtree (graph : GoalGraph) : (room : Nat) → (path : List String) → String → GoalTree
  | 0, _, name => .node name (graph.isShared name) []
  | room + 1, path, name =>
    let path := name :: path
    let below := (graph.children name).filter fun child => !path.contains child
    .node name (graph.isShared name) (below.map (subtree graph room path))

/-- The trees below the roots. A goal with several parents is shown under each of them; a root
that an earlier tree shows starts no tree. -/
def forest (graph : GoalGraph) : List GoalTree :=
  graph.roots.foldl
    (fun trees root =>
      if (GoalTree.namesOfAll trees).contains root then trees
      else trees ++ [graph.subtree graph.size [] root])
    []

end GoalGraph

end StoryCheck
