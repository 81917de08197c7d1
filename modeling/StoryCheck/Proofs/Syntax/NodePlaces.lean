import StoryCheck.Proofs.Syntax.Arena
import StoryCheck.Proofs.Token.Places

/-!
# Where nodes stand

A node of a tree stands in the text, and so do its parts, one behind the other and within it.

* **`Node.IsPlaced`** — this of a node and of all nodes below it.
* **`Arena.isSound_ofNode`** — it goes over to the arena of the tree, number by number.
-/

namespace StoryCheck

namespace Range

/-- Whether a range covers anything. -/
def IsNonempty (range : Range) : Prop := range.span.start < range.span.stop

/-- A range is in front of another one: it starts no later, and if both cover something they cover
nothing together. -/
def Precedes (a b : Range) : Prop :=
  a.span.start ≤ b.span.start ∧ (a.IsNonempty → b.IsNonempty → a.span.stop ≤ b.span.start)

/-- A range goes no further than another one to either side. -/
def Within (a b : Range) : Prop := b.span.start ≤ a.span.start ∧ a.span.stop ≤ b.span.stop

end Range

namespace Syntax

/-- A node stands in the text, and its parts stand one behind the other and, where they cover
something, in it. -/
inductive Node.IsPlaced (text : String) : Node → Prop
  | mk {kind : NodeKind} {range : Range} {children : List Node} (place : range.IsIn text)
    (order : (children.map Node.range).Pairwise Range.Precedes)
    (within : ∀ child ∈ children, child.range.IsNonempty → child.range.Within range)
    (parts : ∀ child ∈ children, Node.IsPlaced text child) :
    Node.IsPlaced text (.mk kind range children)

theorem Node.IsPlaced.range_isIn {text : String} {node : Node} (h : node.IsPlaced text) :
    node.range.IsIn text := by
  obtain ⟨place, _, _, _⟩ := h
  exact place

namespace Arena

variable {arena : Arena} {text : String} {start : Nat} {node : Node}

/-- A node of an arena stands in the text, and its parts stand one behind the other and, where they
cover something, in it. -/
structure HasPlace (arena : Arena) (text : String) (id : Nat) : Prop where
  place : (arena.range id).IsIn text
  order : ((arena.children id).map arena.range).Pairwise Range.Precedes
  within : ∀ child ∈ arena.children id, (arena.range child).IsNonempty →
    (arena.range child).Within (arena.range id)

theorem range_root (h : arena.HasAt start (node.entries start)) :
    arena.range (start + node.size - 1) = node.range := by
  obtain ⟨kind, range, children⟩ := node
  rw [Node.start_add_size, Arena.range, getElem?_root h]
  rfl

theorem ranges_numbers (nodes : List Node)
    (h : arena.HasAt start (Node.entriesAll start nodes)) :
    (Node.numbers start nodes).map arena.range = nodes.map Node.range := by
  induction nodes generalizing start with
  | nil => rfl
  | cons node rest ih =>
    have hrest := h.rest
    rw [Node.entriesAll] at h
    rw [Node.numbers, List.map_cons, List.map_cons, range_root h.left, ih hrest]

/-- The root of a tree has the place in the arena that it has in the tree. -/
theorem hasPlace_root {kind : NodeKind} {range : Range} {children : List Node}
    (hplaced : (Node.mk kind range children).IsPlaced text)
    (h : arena.HasAt start (Node.entries start (.mk kind range children))) :
    arena.HasPlace text (start + Node.sizeAll children) := by
  obtain ⟨place, order, within, -⟩ := hplaced
  have hroot := getElem?_root h
  have hchildren : arena.children (start + Node.sizeAll children) = Node.numbers start children := by
    rw [Arena.children, hroot]
    rfl
  have hrange : arena.range (start + Node.sizeAll children) = range := by
    rw [Arena.range, hroot]
    rfl
  rw [Node.entries] at h
  have hranges := ranges_numbers children h.left
  refine ⟨hrange ▸ place, by rwa [hchildren, hranges], ?_⟩
  rw [hchildren, hrange]
  intro child hmem hnonempty
  obtain ⟨part, hpart, heq⟩ := List.mem_map.1 (hranges ▸ List.mem_map_of_mem hmem)
  rw [← heq] at hnonempty ⊢
  exact within part hpart hnonempty

mutual

/-- The nodes of a tree have the places in the arena that they have in the tree. -/
theorem hasPlace_of_hasAt : ∀ (start : Nat) (node : Node), node.IsPlaced text →
    arena.HasAt start (node.entries start) → ∀ i < node.size, arena.HasPlace text (start + i)
  | start, .mk kind range children, hplaced, h, i, hlt => by
    rw [Node.size_mk] at hlt
    rcases Nat.lt_or_eq_of_le (Nat.le_of_lt_succ hlt) with hlt | rfl
    · obtain ⟨-, -, -, parts⟩ := hplaced
      rw [Node.entries] at h
      exact hasPlace_of_hasAt_all start children parts h.left i hlt
    · exact hasPlace_root hplaced h

theorem hasPlace_of_hasAt_all : ∀ (start : Nat) (nodes : List Node),
    (∀ node ∈ nodes, node.IsPlaced text) → arena.HasAt start (Node.entriesAll start nodes) →
    ∀ i < Node.sizeAll nodes, arena.HasPlace text (start + i)
  | _, [], _, _, i, hlt => absurd hlt (Nat.not_lt_zero i)
  | start, node :: rest, hplaced, h, i, hlt => by
    have hrest := h.rest
    rw [Node.entriesAll] at h
    rw [Node.sizeAll_cons] at hlt
    by_cases hfirst : i < node.size
    · exact hasPlace_of_hasAt start node (hplaced node List.mem_cons_self) h.left i hfirst
    · have hplace := hasPlace_of_hasAt_all (start + node.size) rest
        (fun other hmem => hplaced other (List.mem_cons_of_mem _ hmem)) hrest (i - node.size)
        (by omega)
      rwa [show start + node.size + (i - node.size) = start + i by omega] at hplace

end

/-- An arena that is a tree, all of which stands in a text. -/
structure IsSound (arena : Arena) (text : String) : Prop where
  isTree : arena.IsTree
  hasPlace : ∀ id < arena.size, arena.HasPlace text id

/-- **A tree that stands in a text does so in its arena.** -/
theorem isSound_ofNode (h : node.IsPlaced text) : (ofNode node).IsSound text where
  isTree := isTree_ofNode node
  hasPlace id hlt := by
    rw [size_ofNode] at hlt
    have hplace := hasPlace_of_hasAt 0 node h (hasAt_ofNode node) id hlt
    rwa [Nat.zero_add] at hplace

end Arena
end Syntax
end StoryCheck
