import StoryCheck.Syntax.Node
/-!
# Trees in arenas

The nodes of a tree in one list, where each names its direct parts by their numbers. Reading makes a
node when it has read the parts of it, so parts come before what they are part of and the root is
the last.
-/

namespace StoryCheck.Syntax

/-- A node in an arena. -/
structure Arena.Entry where
  kind : NodeKind
  range : Range
  /-- The numbers of its direct parts, in the order of the source. -/
  children : List Nat
deriving DecidableEq, Repr, Inhabited

/-- The nodes of a tree and the number of the one at its root. -/
structure Arena where
  entries : List Arena.Entry
  root : Nat
deriving DecidableEq, Repr, Inhabited

namespace Arena

/-- Number of nodes. -/
def size (arena : Arena) : Nat := arena.entries.length

/-- The numbers of the direct parts of a node. -/
def children (arena : Arena) (id : Nat) : List Nat :=
  (arena.entries[id]?.map (·.children)).getD []

/-- The range of a node. -/
def range (arena : Arena) (id : Nat) : Range := (arena.entries[id]?.map (·.range)).getD default

/-- Goes through the nodes on a stack and all below them, each before its parts, in at most `bound`
steps. -/
def walk (arena : Arena) : (bound : Nat) → (stack : List Nat) → Option (List Nat)
  | _, [] => some []
  | 0, _ :: _ => none
  | bound + 1, id :: stack => (arena.walk bound (arena.children id ++ stack)).map (id :: ·)

end Arena

namespace Node

/-- Number of nodes of several trees. -/
def sizeAll (nodes : List Node) : Nat := (preorderAll nodes).length

/-- The numbers of nodes that are put into an arena one after the other, each behind its parts. -/
def numbers : (start : Nat) → List Node → List Nat
  | _, [] => []
  | start, node :: rest => (start + node.size - 1) :: numbers (start + node.size) rest

mutual

/-- What a tree adds to an arena of `start` nodes. -/
def entries : (start : Nat) → Node → List Arena.Entry
  | start, mk kind range children =>
    entriesAll start children ++ [{ kind, range, children := numbers start children }]

/-- What several trees add to an arena of `start` nodes. -/
def entriesAll : (start : Nat) → List Node → List Arena.Entry
  | _, [] => []
  | start, node :: rest => entries start node ++ entriesAll (start + node.size) rest

end

end Node

/-- The arena of a tree. -/
def Arena.ofNode (node : Node) : Arena := { entries := node.entries 0, root := node.size - 1 }

end StoryCheck.Syntax
