import StoryCheck.Proofs.Symbol.Contributions
import StoryCheck.Proofs.Symbol.JustifiedRuns

/-!
# Tables that are built up

A table starts empty. Declarations, goals, updates and the rest may come in any order, also a
declaration of a symbol that goals have used before.

* **`IsBuilt`** — the tables that come about in this way.
* **`InOrder`** — what flags, verdicts and kinds have to do with each other in such a table
  (`IsBuilt.inOrder`).
-/

namespace StoryCheck

open Syntax

namespace StorySymbol

/-- A declared symbol is settled; a flagged one has no verdict; the kind of one that goals make up is
what its definitions say. -/
structure InOrder (s : StorySymbol) : Prop where
  declared : s.isSystem = true → s.isDead = false ∧ s.needsUpdate = false
  flagged : s.needsUpdate = true → s.isDead = false ∧ s.canonical = none
  kind : s.isSystem = false → s.kind = s.statedKind

variable {s t : StorySymbol} {touched reached : Bool}

/-- A symbol nobody has mentioned is in order. -/
theorem inOrder_ofKey (key : SymbolKey) : (ofKey key).InOrder :=
  ⟨nofun, fun _ => ⟨rfl, rfl⟩, fun _ => rfl⟩

/-- An edit leaves a symbol in order, if it takes the kind anew wherever definitions changed. -/
theorem InOrder.revised (h : s.InOrder) (hverdict : t.verdict = s.verdict)
    (hkind : t.kind = s.kind)
    (huntouched : touched = false → s.isSystem = false → t.definitions = s.definitions) :
    (t.revised touched reached).InOrder := by
  have hsystem := isSystem_eq_of_verdict hverdict
  have hdead := isDead_eq_of_verdict hverdict
  have hflag := needsUpdate_eq_of_verdict hverdict
  have hcanonical := canonical_eq_of_verdict hverdict
  -- A declared symbol is left as it is by a revision; only that of an inferred one may change.
  cases hdeclared : s.isSystem with
  | true =>
    rw [revised_of_isSystem (hsystem.trans hdeclared)]
    exact
      { declared := fun _ => hdead ▸ hflag ▸ h.declared hdeclared
        flagged := fun hneeds => hdead ▸ hcanonical ▸ h.flagged (hflag ▸ hneeds)
        kind := fun hinferred => absurd (hsystem.trans hdeclared) (by simp [hinferred]) }
  | false =>
    have hinferred := hsystem.trans hdeclared
    refine
      { declared := fun hsystem => ?_, flagged := fun hneeds => ?_, kind := fun _ => ?_ }
    · rw [isSystem_revised, hinferred] at hsystem
      cases hsystem
    · rw [revised_eq hinferred] at hneeds ⊢
      cases reached with
      | true => exact ⟨rfl, rfl⟩
      | false => exact hdead ▸ hcanonical ▸ h.flagged (hflag ▸ hneeds)
    · refine kind_revised hinferred fun hnot => ?_
      rw [hkind, h.kind hdeclared, statedKind_congr (huntouched hnot hdeclared)]

end StorySymbol

namespace SymbolTable

variable {table : SymbolTable} {key : SymbolKey} {s : StorySymbol}

/-- A key stands in the table once, and every symbol is in order. -/
structure InOrder (table : SymbolTable) : Prop where
  nodup : table.keys.Nodup
  symbol : ∀ {key s}, table.get? key = some s → s.InOrder

/-- Tables that declarations and steps lead to, in any order. -/
inductive IsBuilt : SymbolTable → Prop where
  | empty : IsBuilt {}
  | declare {table : SymbolTable} (h : IsBuilt table) (goal : String) (types : TypeRegistry)
      (declaration : Declaration) : IsBuilt (table.declare goal types declaration).1
  | step {table : SymbolTable} (h : IsBuilt table) (step : TableStep) : IsBuilt (step.apply table)

namespace InOrder

/-- A declaration leaves the table in order. The symbol that it declares may have been defined by
goals before; its verdict is replaced. -/
theorem declare (h : table.InOrder) (goal : String) (types : TypeRegistry)
    (declaration : Declaration) : (table.declare goal types declaration).1.InOrder where
  nodup := nodup_keys_declare h.nodup
  symbol {key s} hget := by
    rw [get?_declare] at hget
    split at hget
    · cases hget
      exact ⟨fun _ => ⟨rfl, rfl⟩, nofun, nofun⟩
    · exact h.symbol hget

/-- So does entering a goal, which revises the symbols that it touches and those that hang on them. -/
theorem addGoal (h : table.InOrder) (goal : String) (types : TypeRegistry) (tree : Goal) :
    (table.addGoal goal types tree).1.InOrder where
  nodup := nodup_keys_addGoal h.nodup
  symbol {key s} hget := by
    obtain ⟨touched, reached, rfl, huntouched⟩ := exists_before_addGoal hget
    have hbase : ((table.get? key).getD (.ofKey key)).InOrder := by
      cases hget : table.get? key with
      | none => exact StorySymbol.inOrder_ofKey key
      | some s => exact h.symbol hget
    refine hbase.revised (extends_gather _ _ _).verdict kind_gather fun hnot hinferred => ?_
    -- A symbol that is not touched has no call site that defines it.
    have hinferred' : ∀ s, table.get? key = some s → s.isSystem = false := by
      intro s hs
      rwa [hs] at hinferred
    have hnone : contributed goal (CallSite.ofGoal types tree) key = [] :=
      not_not.1 fun hne => huntouched hnot ((mem_definedKeys goal _ hinferred').2 hne)
    rw [definitions_gather goal _ hinferred]
    exact (congrArg _ hnone).trans (List.append_nil _)

/-- So does taking a goal out. -/
theorem removeGoal (h : table.InOrder) (goal : String) : (table.removeGoal goal).InOrder where
  nodup := nodup_keys_removeGoal h.nodup
  symbol {key s} hget := by
    rw [get?_removeGoal] at hget
    obtain ⟨s, hs, rfl⟩ := Option.map_eq_some_iff.1 hget
    exact (h.symbol hs).revised rfl rfl fun huntouched _ =>
      definitions_strip hs (decide_eq_false_iff_not.1 huntouched)

/-- Pruning only takes symbols away. -/
theorem prune (h : table.InOrder) : table.prune.InOrder where
  nodup := nodup_keys_prune h.nodup
  symbol {key s} hget := by
    rw [get?_prune h.nodup] at hget
    exact h.symbol (Option.eq_some_of_filter_eq_some hget)

/-- Taking everything back flags what is not of the header. -/
theorem invalidateAll (h : table.InOrder) : table.invalidateAll.InOrder where
  nodup := by
    rw [keys_invalidateAll]
    exact h.nodup
  symbol {key s} hget := by
    rw [get?_invalidateAll] at hget
    obtain ⟨s, hs, rfl⟩ := Option.map_eq_some_iff.1 hget
    have hrevised : (s.revised false true).InOrder := (h.symbol hs).revised rfl rfl fun _ _ => rfl
    exact hrevised

/-- An update settles what is flagged. -/
theorem update (h : table.InOrder) (weights : Weights) : (table.update weights).1.InOrder where
  nodup := by
    rw [keys_update]
    exact h.nodup
  symbol {key t} hget := by
    obtain ⟨s, hs, hst⟩ := (table.evolves_update weights).exists_before hget
    have hevidence := hst.evidence_eq
    refine
      { declared := fun hsystem => ?_, flagged := fun hneeds => ?_, kind := fun hinferred => ?_ }
    · rw [StorySymbol.isSystem_eq_of_evidence hevidence] at hsystem
      have hsettled := (h.symbol hs).declared hsystem
      rwa [hst.eq_of_unflagged hsettled.2]
    · exact absurd hneeds (by simp [not_needsUpdate_update hget])
    · rw [StorySymbol.isSystem_eq_of_evidence hevidence] at hinferred
      rw [StorySymbol.statedKind_congr (StorySymbol.definitions_eq_of_evidence hevidence),
        ← (h.symbol hs).kind hinferred]
      show t.evidence.kind = s.evidence.kind
      rw [hevidence]

end InOrder

/-- **Whatever is built is in order.** -/
theorem IsBuilt.inOrder (h : table.IsBuilt) : table.InOrder := by
  induction h with
  | empty => exact ⟨List.nodup_nil, nofun⟩
  | declare _ goal types declaration ih => exact ih.declare goal types declaration
  | step _ step ih =>
    cases step with
    | addGoal goal types tree => exact ih.addGoal goal types tree
    | removeGoal goal => exact ih.removeGoal goal
    | prune => exact ih.prune
    | invalidateAll => exact ih.invalidateAll
    | update weights => exact ih.update weights

end SymbolTable

end StoryCheck
