import Mathlib.Data.List.Perm.Basic
import Mathlib.Data.List.Nodup
import Mathlib.Data.List.Range
import StoryCheck.Syntax.Arena

/-!
# Arenas are trees

The arena of a tree has a place for each of its nodes. Each but the root is a part of one other, and
a walk from the root comes by every node once.

* **`Node.children_entries_perm`** — every number but that of the root is that of one part.
* **`Arena.walk_visited`** — a walk goes through a tree before it goes on with its stack.
* **`Arena.isTree_ofNode`** — the arena of a tree is one.
-/

namespace StoryCheck.Syntax

namespace Node

variable {start : Nat}

/-! ## Sizes

A node takes as many places as the tree below it has nodes. The parts of a node are put in before
it, one tree after the other, so that its own place is the last. -/

/-- A node and its parts. -/
theorem size_mk (kind : NodeKind) (range : Range) (children : List Node) :
    (mk kind range children).size = sizeAll children + 1 := by
  simp [size, sizeAll, preorder]

/-- The first tree and the others. -/
theorem sizeAll_cons (node : Node) (rest : List Node) :
    sizeAll (node :: rest) = node.size + sizeAll rest := by
  simp [size, sizeAll, preorderAll]

/-- There is at least the node itself. -/
theorem size_pos (node : Node) : 0 < node.size := by
  cases node
  rw [size_mk]
  exact Nat.succ_pos _

/-- The number of a node that is put behind `start` others: it comes last of its tree. -/
theorem start_add_size (kind : NodeKind) (range : Range) (children : List Node) :
    start + (mk kind range children).size - 1 = start + sizeAll children := by
  rw [size_mk]
  omega

mutual

/-- The entries of a tree are as many as its nodes. -/
theorem length_entries : ∀ (start : Nat) (node : Node), (entries start node).length = node.size
  | start, mk kind range children => by
    rw [entries, List.length_append, length_entriesAll, size_mk, List.length_singleton]

/-- The entries of several trees are as many as their nodes. -/
theorem length_entriesAll : ∀ (start : Nat) (nodes : List Node),
    (entriesAll start nodes).length = sizeAll nodes
  | _, [] => rfl
  | start, node :: rest => by
    rw [entriesAll, List.length_append, sizeAll_cons, length_entries, length_entriesAll]

end

/-! ## Parts

Every number but that of the root is a part of one node, and of one only. -/

mutual

/-- Every number of a tree is that of one part of one node, or that of its root. -/
theorem children_entries_perm : ∀ (start : Nat) (node : Node),
    ((entries start node).flatMap (·.children) ++ [start + node.size - 1]).Perm
      (List.range' start node.size)
  | start, mk kind range children => by
    rw [entries, List.flatMap_append, start_add_size, size_mk, List.range'_1_concat,
      List.flatMap_cons, List.flatMap_nil, List.append_nil]
    exact (children_entriesAll_perm start children).append_right _

/-- Every number of several trees is that of one part of one node, or that of one root. -/
theorem children_entriesAll_perm : ∀ (start : Nat) (nodes : List Node),
    ((entriesAll start nodes).flatMap (·.children) ++ numbers start nodes).Perm
      (List.range' start (sizeAll nodes))
  | _, [] => .nil
  | start, node :: rest => by
    -- The root of the first tree goes over from its own numbers to those of the list.
    have hboth := (children_entries_perm start node).append
      (children_entriesAll_perm (start + node.size) rest)
    rw [List.append_assoc, List.singleton_append] at hboth
    rw [sizeAll_cons, ← List.range'_append_1, entriesAll, numbers, List.flatMap_append,
      List.append_assoc]
    exact (List.perm_middle.append_left _).trans hboth

end

/-! ## Walks

A walk keeps the numbers that are still to be visited. In the arena of a tree these belong to
subtrees which have no number in common. -/

mutual

/-- The numbers of a tree that is put behind `start` nodes, each before those of its parts. -/
def visited : (start : Nat) → Node → List Nat
  | start, mk kind range children =>
    (start + (mk kind range children).size - 1) :: visitedAll start children

/-- The numbers of several trees, one tree after the other. -/
def visitedAll : (start : Nat) → List Node → List Nat
  | _, [] => []
  | start, node :: rest => visited start node ++ visitedAll (start + node.size) rest

end

mutual

/-- A walk through a tree comes by each of its nodes once. -/
theorem visited_perm : ∀ (start : Nat) (node : Node),
    (visited start node).Perm (List.range' start node.size)
  | start, mk kind range children => by
    rw [visited, start_add_size, size_mk, List.range'_1_concat]
    exact (List.perm_append_singleton _ _).symm.trans
      ((visitedAll_perm start children).append_right _)

/-- A walk through several trees comes by every number that they have. -/
theorem visitedAll_perm : ∀ (start : Nat) (nodes : List Node),
    (visitedAll start nodes).Perm (List.range' start (sizeAll nodes))
  | _, [] => .nil
  | start, node :: rest => by
    rw [visitedAll, sizeAll_cons, ← List.range'_append_1]
    exact (visited_perm start node).append (visitedAll_perm (start + node.size) rest)

end

end Node

namespace Arena

variable {arena : Arena} {start : Nat} {es more : List Entry}

/-- Some entries of an arena stand behind `start` others. -/
def HasAt (arena : Arena) (start : Nat) (es : List Entry) : Prop :=
  ∃ before after, arena.entries = before ++ es ++ after ∧ before.length = start

/-- An arena that has some entries has the first of them. -/
theorem HasAt.left (h : arena.HasAt start (es ++ more)) : arena.HasAt start es := by
  obtain ⟨before, after, hentries, hlength⟩ := h
  exact ⟨before, more ++ after, by simp [hentries], hlength⟩

/-- An arena that has some entries has the later ones behind the first. -/
theorem HasAt.right (h : arena.HasAt start (es ++ more)) : arena.HasAt (start + es.length) more := by
  obtain ⟨before, after, hentries, hlength⟩ := h
  exact ⟨before ++ es, after, by simp [hentries], by simp [hlength]⟩

/-- One entry is found at its number. -/
theorem HasAt.getElem? {entry : Entry} (h : arena.HasAt start [entry]) :
    arena.entries[start]? = some entry := by
  obtain ⟨before, after, hentries, rfl⟩ := h
  simp [hentries]

/-- What is known of the root of a tree in an arena. -/
theorem getElem?_root {kind : NodeKind} {range : Range} {children : List Node}
    (h : arena.HasAt start (Node.entries start (.mk kind range children))) :
    arena.entries[start + Node.sizeAll children]?
      = some ⟨kind, range, Node.numbers start children⟩ := by
  rw [Node.entries] at h
  have hroot := h.right.getElem?
  rwa [Node.length_entriesAll] at hroot

/-- Behind a tree in an arena stand those that come after it. -/
theorem HasAt.rest {node : Node} {nodes : List Node}
    (h : arena.HasAt start (Node.entriesAll start (node :: nodes))) :
    arena.HasAt (start + node.size) (Node.entriesAll (start + node.size) nodes) := by
  rw [Node.entriesAll] at h
  exact Node.length_entries start node ▸ h.right

mutual

/-- A walk goes through a tree on the stack, and then goes on. -/
theorem walk_visited (bound : Nat) (stack : List Nat) : ∀ (start : Nat) (node : Node),
    arena.HasAt start (node.entries start) →
    arena.walk (node.size + bound) ((start + node.size - 1) :: stack)
      = (arena.walk bound stack).map (node.visited start ++ ·)
  | start, .mk kind range children, h => by
    have hroot := getElem?_root h
    rw [Node.entries] at h
    -- One step takes the root from the stack and puts its parts there.
    rw [Node.start_add_size, Node.size_mk, Nat.add_right_comm, walk, Arena.children, hroot,
      Option.map_some, Option.getD_some, walk_visitedAll bound stack start children h.left,
      Node.visited, Node.start_add_size, Option.map_map]
    rfl

/-- A walk goes through the trees on the stack one after the other. -/
theorem walk_visitedAll (bound : Nat) (stack : List Nat) : ∀ (start : Nat) (nodes : List Node),
    arena.HasAt start (Node.entriesAll start nodes) →
    arena.walk (Node.sizeAll nodes + bound) (Node.numbers start nodes ++ stack)
      = (arena.walk bound stack).map (Node.visitedAll start nodes ++ ·)
  | start, [], _ => by
    simp [Node.sizeAll, Node.numbers, Node.visitedAll, Node.preorderAll]
  | start, node :: rest, h => by
    have hrest := h.rest
    rw [Node.entriesAll] at h
    rw [Node.sizeAll_cons, Nat.add_assoc, Node.numbers, List.cons_append,
      walk_visited _ _ start node h.left, walk_visitedAll bound stack _ rest hrest]
    simp [Node.visitedAll, Function.comp_def]

end

/-! ## The arena of a tree

A node is entered behind its parts, so that the root has the last number of all. -/

/-- The arena of a tree has its entries from zero on. -/
theorem hasAt_ofNode (node : Node) : (ofNode node).HasAt 0 (node.entries 0) :=
  ⟨[], [], by simp [ofNode], rfl⟩

/-- It has as many as the tree has nodes. -/
theorem size_ofNode (node : Node) : (ofNode node).size = node.size := Node.length_entries 0 node

/-- A walk from its root comes by the numbers of all nodes. -/
theorem walk_ofNode (node : Node) :
    (ofNode node).walk (ofNode node).size [(ofNode node).root] = some (node.visited 0) := by
  have hwalk := walk_visited 0 [] 0 node (hasAt_ofNode node)
  rw [Nat.zero_add, Nat.add_zero] at hwalk
  rw [size_ofNode]
  exact hwalk.trans (by simp [walk])

/-- What makes an arena a tree: the root is a part of no node, any other node is a part of exactly
one, and a walk from the root ends after as many steps as there are nodes and comes by each once. -/
structure IsTree (arena : Arena) : Prop where
  root_lt : arena.root < arena.size
  children_lt : ∀ id, ∀ child ∈ arena.children id, child < arena.size
  root_free : ∀ id, arena.root ∉ arena.children id
  parent : ∀ id < arena.size, id ≠ arena.root → ∃! parent, id ∈ arena.children parent
  walked : ∃ visited, arena.walk arena.size [arena.root] = some visited ∧ visited.Nodup
    ∧ ∀ id, id ∈ visited ↔ id < arena.size

/-- The parts of an entry are those that it lists. -/
theorem mem_children_iff {id child : Nat} : child ∈ arena.children id ↔
    ∃ entry, arena.entries[id]? = some entry ∧ child ∈ entry.children := by
  unfold children
  cases arena.entries[id]? <;> simp

/-- Where no number stands twice in the lists of parts, a node is a part of one other at most. -/
theorem parent_unique {a b child : Nat} (hnodup : (arena.entries.flatMap (·.children)).Nodup)
    (ha : child ∈ arena.children a) (hb : child ∈ arena.children b) : a = b := by
  obtain ⟨first, hfirst, ha⟩ := mem_children_iff.1 ha
  obtain ⟨second, hsecond, hb⟩ := mem_children_iff.1 hb
  obtain ⟨hlt, rfl⟩ := List.getElem?_eq_some_iff.1 hfirst
  obtain ⟨hlt', rfl⟩ := List.getElem?_eq_some_iff.1 hsecond
  have hdisjoint := List.pairwise_iff_getElem.1 (List.nodup_flatMap.1 hnodup).2
  rcases Nat.lt_trichotomy a b with hab | hab | hab
  · exact absurd hb (hdisjoint a b hlt hlt' hab ha)
  · exact hab
  · exact absurd ha (hdisjoint b a hlt' hlt hab hb)

/-- **The arena of a tree is a tree.** -/
theorem isTree_ofNode (node : Node) : (ofNode node).IsTree := by
  -- The numbers of all parts, with that of the root, are all numbers there are, each one once.
  have hsize := size_ofNode node
  have hperm := Node.children_entries_perm 0 node
  rw [← List.range_eq_range', Nat.zero_add] at hperm
  obtain ⟨hnodup, -, hroot⟩ := List.nodup_append.1 (hperm.nodup_iff.2 List.nodup_range)
  have hparts {id child : Nat} (h : child ∈ (ofNode node).children id) :
      child ∈ (node.entries 0).flatMap (·.children) := by
    obtain ⟨entry, hentry, hmem⟩ := mem_children_iff.1 h
    exact List.mem_flatMap.2 ⟨entry, List.mem_of_getElem? hentry, hmem⟩
  constructor
  · rw [hsize]
    exact Nat.sub_lt node.size_pos Nat.one_pos
  · intro id child hmem
    rw [hsize]
    exact List.mem_range.1 (hperm.mem_iff.1 (List.mem_append_left _ (hparts hmem)))
  · exact fun id hmem => hroot _ (hparts hmem) _ List.mem_cons_self rfl
  · intro id hlt hne
    rw [hsize] at hlt
    have hmem := hperm.mem_iff.2 (List.mem_range.2 hlt)
    rcases List.mem_append.1 hmem with hmem | hmem
    · obtain ⟨entry, hentry, hchild⟩ := List.mem_flatMap.1 hmem
      obtain ⟨parent, hparent⟩ := List.mem_iff_getElem?.1 hentry
      have hpart : id ∈ (ofNode node).children parent := mem_children_iff.2 ⟨entry, hparent, hchild⟩
      exact ⟨parent, hpart, fun other hother => parent_unique hnodup hother hpart⟩
    · exact absurd (List.mem_singleton.1 hmem) hne
  · refine ⟨_, walk_ofNode node, ?_, fun id => ?_⟩
    · exact (Node.visited_perm 0 node).nodup_iff.2 (List.nodup_range')
    · rw [(Node.visited_perm 0 node).mem_iff, hsize, List.mem_range'_1]
      simp

end Arena
end StoryCheck.Syntax
