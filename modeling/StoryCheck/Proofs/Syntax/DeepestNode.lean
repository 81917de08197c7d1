import StoryCheck.Syntax.Node

/-!
# The node at an offset

The walk to an offset goes down to the first part that contains the offset, and never back. So it
ends at a node without a part there. That is a deepest one of all that contain the offset, if parts
are told apart: what stands in a part at the offset makes the part contain it, and a part behind
another one that contains the offset has nothing in it there.

* **`Node.levels`** — the nodes of a tree with their depths.
* **`Node.walk_ends`** — where the walk ends.
* **`Node.Tidy`** — the walk ends at a deepest node; put together part by part by `Node.tidy_mk`.
* **`Node.tidy_of_tellsApart`** — the same from what holds of each node alone.
-/

namespace StoryCheck.Syntax.Node

variable {offset : Nat} {kind : NodeKind} {range : Range} {node child : Node} {children : List Node}

/-! ## Depths

The depth of a node counts the levels above it. That of a walk counts the steps that it takes. -/

mutual

/-- The nodes of a tree, each with the number of levels it stands below the root. -/
def levels : Node → List (Nat × Node)
  | mk kind range children => (0, mk kind range children) :: levelsAll children

/-- The nodes of several trees below one root. -/
def levelsAll : List Node → List (Nat × Node)
  | [] => []
  | node :: rest => (levels node).map (fun (depth, below) => (depth + 1, below)) ++ levelsAll rest

end

mutual

/-- Number of levels that the walk to an offset goes down. -/
def depthAt (offset : Nat) : Node → Nat
  | mk _ _ children => depthAtAny offset children

/-- Number of levels that it goes down through the first of several parts that contains the
offset. -/
def depthAtAny (offset : Nat) : List Node → Nat
  | [] => 0
  | node :: rest =>
    if node.range.contains offset then depthAt offset node + 1 else depthAtAny offset rest

end

/-- No node that contains the offset stands deeper than the one that the walk ends at. -/
def IsDeepestAt (root : Node) (offset : Nat) : Prop :=
  ∀ level ∈ root.levels, level.2.range.contains offset = true → level.1 ≤ root.depthAt offset

instance (root : Node) (offset : Nat) : Decidable (root.IsDeepestAt offset) :=
  inferInstanceAs (Decidable (∀ level ∈ root.levels, _))

theorem mem_levelsAll {level : Nat × Node} {nodes : List Node} :
    level ∈ levelsAll nodes ↔ ∃ node ∈ nodes, ∃ below ∈ node.levels, level = (below.1 + 1, below.2) := by
  induction nodes with
  | nil => simp [levelsAll]
  | cons node rest ih =>
    rw [levelsAll, List.mem_append, ih, List.mem_map]
    simp [eq_comm (a := level)]

/-- A node of a tree is the root, or a level deeper than in the part that it belongs to. -/
theorem mem_levels {level : Nat × Node} : level ∈ node.levels ↔
    level = (0, node) ∨ ∃ child ∈ node.children, ∃ below ∈ child.levels,
      level = (below.1 + 1, below.2) := by
  obtain ⟨kind, range, children⟩ := node
  rw [levels, List.mem_cons, mem_levelsAll]
  rfl

theorem root_mem_levels (node : Node) : (0, node) ∈ node.levels := mem_levels.2 (.inl rfl)

theorem mem_levels_of_child (hchild : child ∈ node.children) {level : Nat × Node}
    (h : level ∈ child.levels) : (level.1 + 1, level.2) ∈ node.levels :=
  mem_levels.2 (.inr ⟨child, hchild, level, h, rfl⟩)

mutual

/-- The levels hold all nodes of a tree, in order. -/
theorem map_levels : ∀ node : Node, node.levels.map (·.2) = node.preorder
  | mk kind range children => by
    rw [levels, preorder, List.map_cons, map_levelsAll children]

theorem map_levelsAll : ∀ nodes : List Node, (levelsAll nodes).map (·.2) = preorderAll nodes
  | [] => rfl
  | node :: rest => by
    rw [levelsAll, preorderAll, List.map_append, map_levelsAll rest, List.map_map, ← map_levels node]
    rfl

end

/-! ## The walk

At each level the walk takes the first part that contains the offset and never comes back to another
one. -/

/-- The walk stops in front of parts of which none contains the offset, and else goes on with the
first that does. -/
theorem walk_cases (offset : Nat) (children : List Node) :
    (∀ child ∈ children, child.range.contains offset = false)
        ∧ nodeAtAny offset children = none ∧ depthAtAny offset children = 0
      ∨ ∃ front child back, children = front ++ child :: back
        ∧ (∀ other ∈ front, other.range.contains offset = false)
        ∧ child.range.contains offset = true ∧ nodeAtAny offset children = some (child.nodeAt offset)
        ∧ depthAtAny offset children = child.depthAt offset + 1 := by
  induction children with
  | nil => exact .inl ⟨fun _ hmem => absurd hmem List.not_mem_nil, rfl, rfl⟩
  | cons node rest ih =>
    rw [nodeAtAny, depthAtAny]
    cases hnode : node.range.contains offset with
    | true => exact .inr ⟨[], node, rest, rfl, by simp, hnode, rfl, rfl⟩
    | false =>
      simp only [Bool.false_eq_true, if_false]
      rcases ih with ⟨hnone, hwalk⟩ | ⟨front, child, back, rfl, hfront, hwalk⟩
      · exact .inl ⟨by simpa [hnode] using hnone, hwalk⟩
      · exact .inr ⟨node :: front, child, back, rfl, by simpa [hnode] using hfront, hwalk⟩

theorem nodeAt_mk (offset : Nat) (kind : NodeKind) (range : Range) (children : List Node) :
    nodeAt offset (mk kind range children)
      = (nodeAtAny offset children).getD (mk kind range children) := by
  rw [nodeAt]

theorem depthAt_mk (offset : Nat) (kind : NodeKind) (range : Range) (children : List Node) :
    depthAt offset (mk kind range children) = depthAtAny offset children := by
  rw [depthAt]

/-- A walk through the first part that contains the offset. -/
theorem depthAt_of_first {front back : List Node}
    (hchildren : node.children = front ++ child :: back)
    (hfront : ∀ other ∈ front, other.range.contains offset = false)
    (hchild : child.range.contains offset = true) :
    node.depthAt offset = child.depthAt offset + 1 := by
  obtain ⟨kind, range, children⟩ := node
  obtain rfl : children = front ++ child :: back := hchildren
  rw [depthAt_mk]
  induction front with
  | nil => rw [List.nil_append, depthAtAny, if_pos hchild]
  | cons first front ih =>
    rw [List.cons_append, depthAtAny, if_neg (by simp [hfront first List.mem_cons_self])]
    exact ih fun other hmem => hfront other (List.mem_cons_of_mem _ hmem)

/-- Where a walk ends: at a node of the tree that contains the offset, and none of its parts does. -/
structure EndsAt (root : Node) (offset depth : Nat) (node : Node) : Prop where
  mem : (depth, node) ∈ root.levels
  contains : node.range.contains offset = true
  parts : ∀ child ∈ node.children, child.range.contains offset = false

mutual

theorem walk_ends : ∀ root : Node, root.range.contains offset = true →
    root.EndsAt offset (root.depthAt offset) (root.nodeAt offset)
  | mk kind range children, hcontains => by
    have hbelow := walkAny_ends children
    rw [nodeAt_mk, depthAt_mk]
    rcases walk_cases offset children with
      ⟨hnone, hwalk, hdepth⟩ | ⟨front, child, back, rfl, -, hchild, hwalk, hdepth⟩
    · rw [hwalk, hdepth]
      exact ⟨root_mem_levels _, hcontains, hnone⟩
    · have hmem : child ∈ front ++ child :: back := List.mem_append_right _ List.mem_cons_self
      obtain ⟨hlevel, hend, hparts⟩ := hbelow child hmem hchild
      rw [hwalk, hdepth]
      exact ⟨mem_levels_of_child hmem hlevel, hend, hparts⟩

theorem walkAny_ends : ∀ nodes : List Node, ∀ node ∈ nodes, node.range.contains offset = true →
    node.EndsAt offset (node.depthAt offset) (node.nodeAt offset)
  | [], _, hmem, _ => absurd hmem List.not_mem_nil
  | first :: rest, node, hmem, hcontains => by
    rcases List.mem_cons.1 hmem with heq | hmem
    · exact heq ▸ walk_ends first (heq ▸ hcontains)
    · exact walkAny_ends rest node hmem hcontains

end

/-! ## Deepest nodes

It is enough that, of two parts at the offset, the second has nothing below itself there. Then the
first is the better choice. -/

/-- Nothing stands below a node at an offset. -/
def Clear (offset : Nat) (node : Node) : Prop :=
  ∀ child ∈ node.children, ∀ level ∈ child.levels, level.2.range.contains offset = false

/-- The nodes at an offset stand in a node that contains it, and the walk ends at a deepest one. -/
structure Tidy (offset : Nat) (node : Node) : Prop where
  within : ∀ level ∈ node.levels, level.2.range.contains offset = true →
    node.range.contains offset = true
  deepest : node.range.contains offset = true → node.IsDeepestAt offset

/-- A node tells its parts apart: it contains the offset if a part does, and a part behind another
one that does so is clear there. -/
structure TellsApart (offset : Nat) (node : Node) : Prop where
  inside : ∀ child ∈ node.children, child.range.contains offset = true →
    node.range.contains offset = true
  clear : node.children.Pairwise fun a b =>
    a.range.contains offset = true → b.range.contains offset = true → b.Clear offset

/-- A node of tidy parts that are told apart is tidy. -/
theorem tidy_mk (hparts : ∀ child ∈ node.children, child.Tidy offset) (h : node.TellsApart offset) :
    node.Tidy offset := by
  have hinside : ∀ child ∈ node.children, ∀ level ∈ child.levels,
      level.2.range.contains offset = true → child.range.contains offset = true :=
    fun child hchild => (hparts child hchild).within
  refine ⟨fun level hmem hcontains => ?_, fun _ level hmem hcontains => ?_⟩
  · rcases mem_levels.1 hmem with rfl | ⟨child, hchild, below, hbelow, rfl⟩
    · exact hcontains
    · exact h.inside child hchild (hinside child hchild below hbelow hcontains)
  · rcases mem_levels.1 hmem with rfl | ⟨child, hchild, below, hbelow, rfl⟩
    · exact Nat.zero_le _
    have hthere := hinside child hchild below hbelow hcontains
    obtain ⟨kind, range, children⟩ := node
    rw [depthAt_mk]
    rcases walk_cases offset children with ⟨hnone, -⟩ | ⟨front, first, back, rfl, hfront, hfirst, -, hdepth⟩
    · rw [hnone child hchild] at hthere
      cases hthere
    rw [hdepth]
    -- The part is the one that the walk goes through, or is clear behind it.
    rcases List.mem_append.1 hchild with hchild | hchild
    · rw [hfront child hchild] at hthere
      cases hthere
    rcases List.mem_cons.1 hchild with rfl | hback
    · have := (hparts child (List.mem_append_right _ List.mem_cons_self)).deepest hthere below hbelow
        hcontains
      dsimp only
      omega
    · have hclear := (List.pairwise_cons.1 (List.pairwise_append.1 h.clear).2.1).1 child hback hfirst
        hthere
      rcases mem_levels.1 hbelow with rfl | ⟨part, hpart, deeper, hdeeper, rfl⟩
      · dsimp only
        omega
      · rw [hclear part hpart deeper hdeeper] at hcontains
        cases hcontains

/-- A node without parts is tidy. -/
theorem tidy_leaf (kind : NodeKind) (range : Range) : (leaf kind range).Tidy offset :=
  tidy_mk (fun _ hmem => absurd hmem List.not_mem_nil)
    ⟨fun _ hmem => absurd hmem List.not_mem_nil, .nil⟩

mutual

/-- **If every node tells its parts apart, the walk ends at a deepest node.** -/
theorem tidy_of_tellsApart : ∀ root : Node,
    (∀ level ∈ root.levels, level.2.TellsApart offset) → root.Tidy offset
  | mk _ _ children, h =>
    tidy_mk (tidy_of_tellsApart_all children fun _ hchild level hlevel =>
      h (level.1 + 1, level.2) (mem_levels_of_child hchild hlevel)) (h _ (root_mem_levels _))

theorem tidy_of_tellsApart_all : ∀ nodes : List Node,
    (∀ node ∈ nodes, ∀ level ∈ node.levels, level.2.TellsApart offset) →
    ∀ node ∈ nodes, node.Tidy offset
  | [], _, _, hmem => absurd hmem List.not_mem_nil
  | first :: rest, h, node, hmem => by
    rcases List.mem_cons.1 hmem with heq | hmem
    · exact heq ▸ tidy_of_tellsApart first (h first List.mem_cons_self)
    · exact tidy_of_tellsApart_all rest (fun other hother => h other (List.mem_cons_of_mem _ hother))
        node hmem

end

end StoryCheck.Syntax.Node
