import StoryCheck.Proofs.Syntax.TouchingNodes

/-!
# Searching nodes

The node at an offset is looked up by a walk that is documented to find a deepest one. It does so in
every header that is read without a diagnostic, and in a goal that follows the grammar everywhere but
between two actions that touch: there the walk stays with the first action, whose semicolon is in
front of the offset, and does not see the name that stands behind it.

* **`Header.isDeepestAt`** — headers have no such place.
* **`walk_finds_deepest_node`** — what the walk finds in goals and headers of every kind.
* **`walk_misses_deepest_node`** — two actions that touch.
-/

namespace StoryCheck.Syntax

open Node

/-! ## Headers

In a header the walk has little to choose. Entries take up room, and where one starts there is a
keyword, which is no node. -/

namespace Row

variable {offset low high : Nat} {source : List Char}

/-- The signature of a definition stands behind the keyword. -/
theorem strung_definition {w : WrittenDeclaration} (h : Row low w.tokens high) :
    Strung offset (low + 1) high [w.signature.tree.toNode] := by
  obtain ⟨last, hfront, hsemicolon⟩ := h.of_append
  obtain ⟨mid, hfront, htuple⟩ := hfront.of_append
  obtain ⟨hle, hroom, hsignature⟩ := hfront.of_cons
  exact .one (hsignature.fits_signature.mono (by omega) (Nat.le_trans htuple.le hsemicolon.le))

/-- The nodes of an entry of a header, of which there is one at most. -/
def nodesOf (source : List Char) (entry : WrittenEntry) : List Node :=
  (entry.trees source).flatMap Parse.entryNodes

/-- The node of an entry takes up room. -/
theorem isNonempty_nodesOf {entry : WrittenEntry} (h : Row low entry.tokens high) :
    ∀ node ∈ nodesOf source entry, node.range.IsNonempty := by
  intro node hmem
  cases entry with
  | typeAlias written => cases hmem
  | line written => cases hmem
  | declaration written =>
    obtain rfl := List.mem_singleton.1 hmem
    exact h.isNonempty_rangeOf (List.cons_ne_nil _ _) {}
  | goal written =>
    obtain rfl := List.mem_singleton.1 hmem
    exact h.isNonempty_rangeOf (List.cons_ne_nil _ _) {}

/-- Where the node of an entry starts there is nothing but a keyword. -/
theorem strung_entry {entry : WrittenEntry} (h : Row low entry.tokens high) :
    Strung offset low high (nodesOf source entry)
      ∧ ∀ node ∈ nodesOf source entry, node.range.span.start = offset → node.Clear offset := by
  cases entry with
  | typeAlias written => exact ⟨.nil, fun _ hmem => absurd hmem List.not_mem_nil⟩
  | line written => exact ⟨.nil, fun _ hmem => absurd hmem List.not_mem_nil⟩
  | declaration written =>
    have hfits : written.tree.toNode.Fits offset low high :=
      fits_node h (List.cons_ne_nil _ _) .definition {} fun _ _ hrow =>
        hrow.strung_definition.mono (Nat.le_succ _) (Nat.le_refl _)
    refine ⟨.one hfits, fun node hmem hstart => ?_⟩
    obtain rfl := List.mem_singleton.1 hmem
    obtain ⟨-, hrow, -⟩ := h.tighten (List.cons_ne_nil _ _) {}
    exact hrow.strung_definition.clear_of_lt (Nat.lt_succ_of_le (Nat.le_of_eq hstart.symm)) _ _
  | goal written =>
    refine ⟨.one (fits_node h (List.cons_ne_nil _ _) .divGoal {} fun _ _ _ => .nil), ?_⟩
    intro node hmem _
    obtain rfl := List.mem_singleton.1 hmem
    exact clear_leaf _ _

/-- Entries may touch. -/
theorem strung_entries {entries : List WrittenEntry} (h : Row low (entries.flatMap (·.tokens)) high) :
    Strung offset low high (entries.flatMap (nodesOf source)) := by
  induction entries generalizing low with
  | nil => exact .nil
  | cons entry rest ih =>
    obtain ⟨mid, hentry, hrest⟩ := h.of_append
    rw [List.flatMap_cons]
    refine hentry.strung_entry.1.touching (ih hrest) hentry.le hrest.le fun a _ b hb _ hstart => ?_
    obtain ⟨other, hother, hb⟩ := List.mem_flatMap.1 hb
    obtain ⟨_, _, hrow⟩ := hrest.of_mem_flatMap hother
    exact hrow.strung_entry.2 b hb hstart

end Row

/-- **In a header without a diagnostic the walk ends at a deepest node.** -/
theorem Header.isDeepestAt {text : String} {offset : Nat}
    (hsilent : (parseHeader text).diagnostics = [])
    (hcontains : (parseHeader text).tree.toNode.range.contains offset = true) :
    (parseHeader text).tree.toNode.IsDeepestAt offset := by
  obtain ⟨w, htokens, hdefinitions, hgoals⟩ := exists_writtenHeader hsilent
  have hrow := Row.of_text text
  rw [htokens] at hrow
  -- Sections of one goal and declarations are all nodes in one row, each one behind the other.
  have hstrung : Strung offset 0 _ (w.entries.flatMap (Row.nodesOf text.toList)) := hrow.strung_entries
  have hnodes : (w.trees text.toList).flatMap Parse.entryNodes
      = w.entries.flatMap (Row.nodesOf text.toList) := List.flatMap_assoc
  have horder : ((w.trees text.toList).flatMap Parse.entryNodes).Pairwise fun a b =>
      a.range.span.start < b.range.span.start := by
    rw [hnodes]
    refine hstrung.order.imp_of_mem fun {a b} ha _ hle => Nat.lt_of_lt_of_le ?_ hle
    obtain ⟨entry, hentry, ha⟩ := List.mem_flatMap.1 ha
    obtain ⟨_, _, hentry⟩ := hrow.of_mem_flatMap hentry
    exact hentry.isNonempty_nodesOf a ha
  have hnode : (parseHeader text).tree.toNode
      = .mk .div (parseHeader text).tree.range (w.entries.flatMap (Row.nodesOf text.toList)) := by
    rw [← hnodes, ← Parse.toNode_headerOf horder]
    unfold Header.toNode
    rw [hdefinitions, hgoals, ← w.definitions_trees text.toList, ← w.goals_trees text.toList]
    rfl
  rw [hnode] at hcontains ⊢
  refine (tidy_mk ?_ ⟨fun _ _ _ => hcontains, hstrung.clear⟩).deepest hcontains
  exact fun node hmem => (hstrung.fits node hmem).tidy

/-! ## All texts

The first part holds of every text. Which node is deepest is said of texts that follow the grammar,
as only their tokens tell where nodes may touch. -/

/-- **What the walk finds.** It ends at a node of the tree that contains the offset, in a part that
has no part there. If every node tells its parts apart at the offset, no node there is deeper. In a
goal that follows the grammar that is so exactly if no two actions touch at the offset of which the
second starts with a name, and in a header without a diagnostic always. -/
theorem walk_finds_deepest_node (text : String) (offset : Nat) :
    (∀ root ∈ [(parseGoal text).tree.toNode, (parseHeader text).tree.toNode],
      root.range.contains offset = true →
        root.EndsAt offset (root.depthAt offset) (root.nodeAt offset)
          ∧ ((∀ level ∈ root.levels, level.2.TellsApart offset) → root.IsDeepestAt offset))
      ∧ (∀ w : WrittenGoal, (TokenList.ofText text).tokens = w.tokens →
        (parseGoal text).tree.toNode.range.contains offset = true →
        ((parseGoal text).tree.toNode.IsDeepestAt offset
          ↔ ∀ block ∈ (parseGoal text).tree.actionBlocks, ¬ block.TouchesAt offset))
      ∧ ((parseHeader text).diagnostics = [] →
        (parseHeader text).tree.toNode.range.contains offset = true →
        (parseHeader text).tree.toNode.IsDeepestAt offset) := by
  refine ⟨fun root _ hcontains => ⟨walk_ends root hcontains, fun hapart => ?_⟩,
    fun w htokens hcontains => WrittenGoal.isDeepestAt_iff htokens hcontains,
    fun hsilent hcontains => Header.isDeepestAt hsilent hcontains⟩
  exact (tidy_of_tellsApart root hapart).deepest hcontains

/-- A goal with two actions that touch. -/
def touchingActions : String :=
  "INITSECTION\nDB_A(1);DB_B(2);\nKBSECTION\nEXITSECTION\nENDEXITSECTION\n"

theorem touchingActions_is_silent : (parseGoal touchingActions).diagnostics = []
    ∧ ∀ o ∈ (parseGoal touchingActions).tree.options, o.value ≠ .missing := by
  decide +kernel

/-- The first byte of the second name is also the end of the first action, the next byte is not. -/
theorem touchingActions_is_searched :
    (∃ block ∈ (parseGoal touchingActions).tree.actionBlocks, block.TouchesAt 20)
      ∧ ∀ block ∈ (parseGoal touchingActions).tree.actionBlocks, ¬ block.TouchesAt 21 := by
  obtain ⟨hsilent, hvalues⟩ := touchingActions_is_silent
  obtain ⟨w, hwritten⟩ := exists_written hsilent hvalues
  obtain ⟨-, hbetween, -⟩ := walk_finds_deepest_node touchingActions 20
  obtain ⟨-, hbehind, -⟩ := walk_finds_deepest_node touchingActions 21
  have hiff := hbetween w hwritten (by decide +kernel)
  have hiff' := hbehind w hwritten (by decide +kernel)
  refine ⟨?_, hiff'.1 (by decide +kernel)⟩
  by_contra hnone
  exact absurd (hiff.2 fun block hmem htouch => hnone ⟨block, hmem, htouch⟩) (by decide +kernel)

/-- **The walk may miss the deepest node.** -/
theorem walk_misses_deepest_node : (parseGoal touchingActions).diagnostics = []
    ∧ (parseGoal touchingActions).tree.toNode.range.contains 20 = true
    ∧ ¬ (parseGoal touchingActions).tree.toNode.IsDeepestAt 20 := by
  decide +kernel

end StoryCheck.Syntax
