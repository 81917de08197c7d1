import StoryCheck.Proofs.Symbol.Built
import StoryCheck.Proofs.Symbol.FirstComplete
import StoryCheck.Proofs.Symbol.Reanalysis
import StoryCheck.Proofs.Syntax.Sketch

/-!
# Taking a goal out again

A goal that was entered by mistake is taken out again. What it left behind would stay for good, for
nobody knows any more where it came from. It leaves nothing but flags, and it leaves those wherever
it made a difference.

* **`strip_gather`** — for a single symbol: stripping it of a goal undoes what the call sites of that
  goal added. What an edit revises on top of that is the kind, and the kind follows from the rest
  (`IsBuilt.inOrder`).
* **`keys_prune_undone`** — for the table: the symbols that the goal brought come last, have nothing
  left, and are pruned.
* **`mem_reachedByRemoving`** — what hangs on the goal is taken back. The goal's own definitions are
  gone when this is looked into, but the symbols that had them are where it starts.
* **`removal_leaves_no_residue`** — the two together.
-/

namespace StoryCheck

open Syntax

/-! ## A single symbol

What a symbol has from a goal are definitions, usages, reads and writes, each marked with the goal.
To strip it is to filter these lists. -/

namespace StorySymbol

variable {s t : StorySymbol} {goal : String} {key : SymbolKey} {touched reached : Bool}

/-- The goal has no definition of the symbol, and no call site. -/
structure Lacks (s : StorySymbol) (goal : String) : Prop where
  definitions : ∀ d ∈ s.definitions, d.goal ≠ goal
  usages : goal ∉ s.usages
  reads : goal ∉ s.reads
  writes : goal ∉ s.writes

instance (s : StorySymbol) (goal : String) : Decidable (s.Lacks goal) :=
  decidable_of_iff
    ((∀ d ∈ s.definitions, d.goal ≠ goal) ∧ goal ∉ s.usages ∧ goal ∉ s.reads ∧ goal ∉ s.writes)
    ⟨fun ⟨hdefinitions, husages, hreads, hwrites⟩ => ⟨hdefinitions, husages, hreads, hwrites⟩,
      fun ⟨hdefinitions, husages, hreads, hwrites⟩ => ⟨hdefinitions, husages, hreads, hwrites⟩⟩

/-- A symbol nobody has mentioned has nothing from a goal. -/
theorem lacks_ofKey (key : SymbolKey) (goal : String) : (ofKey key).Lacks goal :=
  ⟨nofun, nofun, nofun, nofun⟩

/-- What goals say about the symbol, but for the kind, on which they may not agree. -/
def contents (s : StorySymbol) : StorySymbol := { s.evidence with kind := .unknown }

/-- Revising a symbol changes its kind and its verdict, not its contents. -/
theorem contents_revised : (s.revised touched reached).contents = s.contents := by
  cases hsystem : s.isSystem with
  | true => rw [revised_of_isSystem hsystem]
  | false =>
    rw [revised_eq hsystem]
    rfl

/-- What goals say about a symbol are its contents and its kind. -/
theorem evidence_eq_of_contents (hcontents : s.contents = t.contents) (hkind : s.kind = t.kind) :
    s.evidence = t.evidence := by
  have hs : s.evidence = { s.contents with kind := s.kind } := rfl
  rw [hs, hcontents, hkind]
  rfl

/-- Whether the header declared a symbol is one of its contents. -/
theorem isSystem_eq_of_contents (h : s.contents = t.contents) : s.isSystem = t.isSystem :=
  (congrArg StorySymbol.isSystem h :)

/-- The definitions of a symbol are among its contents. -/
theorem definitions_eq_of_contents (h : s.contents = t.contents) :
    s.definitions = t.definitions :=
  (congrArg StorySymbol.definitions h :)

/-- Whether anybody refers to a symbol follows from its contents. -/
theorem isReferred_eq_of_contents (h : s.contents = t.contents) :
    SymbolTable.isReferred s = SymbolTable.isReferred t :=
  (congrArg SymbolTable.isReferred h :)

/-- The kind of a symbol that goals define follows from its contents. -/
theorem InOrder.kind_eq (hs : s.InOrder) (ht : t.InOrder) (hcontents : s.contents = t.contents)
    (hinferred : s.isSystem = false) : s.kind = t.kind := by
  rw [hs.kind hinferred, ht.kind ((isSystem_eq_of_contents hcontents).symm.trans hinferred),
    statedKind_congr (definitions_eq_of_contents hcontents)]

end StorySymbol

namespace SymbolTable

variable {table : SymbolTable} {key source : SymbolKey} {s t : StorySymbol} {goal : String}
  {types : TypeRegistry} {tree : Goal} {sites : List CallSite}

/-- There is nothing to strip of a symbol that has nothing from the goal. -/
theorem strip_of_lacks (h : s.Lacks goal) : strip goal s = s := by
  have hdefinitions : (s.definitions.filter fun d => d.goal != goal) = s.definitions :=
    List.filter_eq_self.2 fun d hd => by simpa using h.definitions d hd
  have hlist {goals : List String} (hgoals : goal ∉ goals) :
      (goals.filter fun g => g != goal) = goals :=
    List.filter_eq_self.2 fun g hg => by
      rw [bne_iff_ne]
      exact fun heq => hgoals (heq ▸ hg)
  unfold strip
  rw [hdefinitions, hlist h.usages, hlist h.reads, hlist h.writes]

/-- What a call site added is stripped off. -/
theorem strip_addSite (goal : String) (site : CallSite) (s : StorySymbol) :
    strip goal (addSite goal site s) = strip goal s := by
  have hlist (goals : List String) (c : Prop) [Decidable c] :
      (if c then goals ++ [goal] else goals).filter (fun g => g != goal)
        = goals.filter fun g => g != goal := by
    split <;> simp
  unfold addSite
  cases definitionShape? site.call with
  | none => simp [strip]
  | some shape =>
    obtain ⟨kind, access⟩ := shape
    dsimp only
    split <;> simp [strip, hlist]

/-- **Stripping a symbol of a goal undoes what the goal's call sites added.** -/
theorem strip_gather (goal : String) (sites : List CallSite) (s : StorySymbol) :
    strip goal (gather goal sites s) = strip goal s := by
  induction sites generalizing s with
  | nil => rfl
  | cons site rest ih => exact (ih (addSite goal site s)).trans (strip_addSite goal site s)

/-- Stripping is about the contents only. -/
theorem contents_strip (goal : String) (s : StorySymbol) :
    (strip goal s).contents = strip goal s.contents := rfl

/-! ## The table

Entering a goal and taking it out again changes the list of keys at its end, where the symbols stand
that the goal brought. Each of the others has the contents it had. -/

/-- The goal has contributed nothing. -/
def LacksGoal (table : SymbolTable) (goal : String) : Prop :=
  ∀ s ∈ table.symbols, s.Lacks goal

instance (table : SymbolTable) (goal : String) : Decidable (table.LacksGoal goal) :=
  inferInstanceAs (Decidable (∀ s ∈ table.symbols, s.Lacks goal))

/-- What was known of a symbol before it was called; nothing, if it was not there. -/
abbrev before (table : SymbolTable) (key : SymbolKey) : StorySymbol :=
  (table.get? key).getD (.ofKey key)

/-- What a symbol was before, if it was there. -/
theorem before_of_get? (hget : table.get? key = some s) : table.before key = s := by
  rw [before, hget]
  rfl

/-- A symbol of a table that lacks a goal has nothing from it, nor has one that was not there. -/
theorem LacksGoal.before (h : table.LacksGoal goal) (key : SymbolKey) :
    (table.before key).Lacks goal := by
  unfold SymbolTable.before
  cases hget : table.get? key with
  | none => exact StorySymbol.lacks_ofKey key goal
  | some s => exact h s (mem_symbols_of_get? hget)

/-- The table after a goal was entered and taken out. -/
def undone (table : SymbolTable) (goal : String) (types : TypeRegistry) (tree : Goal) :
    SymbolTable :=
  (table.addGoal goal types tree).1.removeGoal goal

/-- Of a symbol of the header nothing is left to be undone. -/
theorem undone_of_isSystem (hlacks : table.LacksGoal goal)
    (hget : (table.undone goal types tree).get? key = some t) (hsystem : t.isSystem = true) :
    t = table.before key := by
  rw [undone, get?_removeGoal] at hget
  obtain ⟨s, hs, rfl⟩ := Option.map_eq_some_iff.1 hget
  rw [StorySymbol.isSystem_revised] at hsystem
  rw [StorySymbol.revised_of_isSystem hsystem]
  obtain ⟨touched, reached, rfl, -⟩ := exists_before_addGoal hs
  have hgathered := (StorySymbol.isSystem_revised _).symm.trans hsystem
  rw [StorySymbol.revised_of_isSystem hgathered, strip_gather, strip_of_lacks (hlacks.before key)]

/-- Any symbol comes back with the contents it had. -/
theorem contents_undone (hlacks : table.LacksGoal goal)
    (hget : (table.undone goal types tree).get? key = some t) :
    t.contents = (table.before key).contents := by
  rw [undone, get?_removeGoal] at hget
  obtain ⟨s, hs, rfl⟩ := Option.map_eq_some_iff.1 hget
  obtain ⟨touched, reached, rfl, -⟩ := exists_before_addGoal hs
  -- Both edits revise the kind and the flags, which are not among the contents.
  rw [StorySymbol.contents_revised, contents_strip, StorySymbol.contents_revised, ← contents_strip,
    strip_gather, strip_of_lacks (hlacks.before key)]

/-- Call sites bring new keys, behind the others. -/
theorem exists_keys_filled (table : SymbolTable) (goal : String) (sites : List CallSite) :
    ∃ brought, (table.filled goal sites).keys = table.keys ++ brought := by
  -- One call site after the other.
  induction sites generalizing table with
  | nil => exact ⟨[], (List.append_nil _).symm⟩
  | cons site rest ih =>
    obtain ⟨brought, hbrought⟩ := ih (table.enter goal site)
    rw [enter, keys_modify key_addSite, keys_ensure] at hbrought
    split at hbrought
    · exact ⟨brought, hbrought⟩
    · exact ⟨site.key :: brought, by rwa [List.append_assoc] at hbrought⟩

/-- Taking the goal out again leaves the keys in place. -/
theorem exists_keys_undone (table : SymbolTable) (goal : String) (types : TypeRegistry)
    (tree : Goal) : ∃ brought, (table.undone goal types tree).keys = table.keys ++ brought := by
  obtain ⟨brought, hbrought⟩ := table.exists_keys_filled goal (CallSite.ofGoal types tree)
  refine ⟨brought, ?_⟩
  rw [undone, removeGoal_eq, keys_invalidateFrom, keys_refresh, keys_map (f := strip goal) fun _ => rfl,
    addGoal_fst, keys_invalidateFrom, keys_refresh, hbrought]

/-- Pruning keeps the keys of the symbols somebody refers to. -/
theorem keys_prune (hnodup : table.keys.Nodup) :
    table.prune.keys = table.keys.filter fun key => (table.get? key).any isReferred := by
  unfold prune keys
  rw [List.filter_map]
  refine congrArg (List.map StorySymbol.key) (List.filter_congr fun s hmem => ?_)
  rw [Function.comp_apply, get?_of_mem hnodup hmem, Option.any_some]

/-- No key comes twice on the way. -/
theorem nodup_keys_undone (hnodup : table.keys.Nodup) :
    (table.undone goal types tree).keys.Nodup :=
  nodup_keys_removeGoal (nodup_keys_addGoal hnodup)

/-- **Pruning takes out just the symbols that the goal brought.** -/
theorem keys_prune_undone (hnodup : table.keys.Nodup) (htidy : table.IsTidy)
    (hlacks : table.LacksGoal goal) :
    (table.undone goal types tree).prune.keys = table.keys := by
  have hundone : (table.undone goal types tree).keys.Nodup := nodup_keys_undone hnodup
  obtain ⟨brought, hbrought⟩ := table.exists_keys_undone goal types tree
  -- Whether a symbol stays is decided by what was there before.
  have hreferred {key : SymbolKey} (hkey : key ∈ table.keys ++ brought) :
      ((table.undone goal types tree).get? key).any isReferred = isReferred (table.before key) := by
    obtain ⟨t, ht⟩ := Option.isSome_iff_exists.1 (get?_isSome_iff.2 (hbrought ▸ hkey))
    rw [ht, Option.any_some]
    exact StorySymbol.isReferred_eq_of_contents (contents_undone hlacks ht)
  have hstays : ∀ key ∈ table.keys,
      ((table.undone goal types tree).get? key).any isReferred = true := by
    intro key hkey
    obtain ⟨s, hs⟩ := Option.isSome_iff_exists.1 (get?_isSome_iff.2 hkey)
    rw [hreferred (List.mem_append_left _ hkey), before_of_get? hs]
    exact htidy hs
  have hgoes : ∀ key ∈ brought,
      ¬ ((table.undone goal types tree).get? key).any isReferred = true := by
    intro key hkey
    have hnew : key ∉ table.keys := fun hold =>
      (List.nodup_append.1 (hbrought ▸ hundone)).2.2 key hold key hkey rfl
    rw [hreferred (List.mem_append_right _ hkey), before, get?_eq_none_iff.2 hnew]
    exact Bool.false_ne_true
  rw [keys_prune hundone, hbrought, List.filter_append, List.filter_eq_self.2 hstays,
    List.filter_eq_nil_iff.2 hgoes, List.append_nil]

/-- After pruning the table is the one it was before, up to verdicts. -/
theorem evidence_prune_undone (horder : table.InOrder) (htidy : table.IsTidy)
    (hlacks : table.LacksGoal goal) :
    (table.undone goal types tree).prune.map StorySymbol.evidence
      = table.map StorySymbol.evidence := by
  have hundone : (table.undone goal types tree).InOrder :=
    (horder.addGoal goal types tree).removeGoal goal
  have hkeys : (table.undone goal types tree).prune.keys = table.keys :=
    keys_prune_undone horder.nodup htidy hlacks
  have hkey (table : SymbolTable) : (table.map StorySymbol.evidence).keys = table.keys :=
    keys_map fun _ => rfl
  refine ext_get? ?_ (by rw [hkey, hkey, hkeys]) fun key => ?_
  · rw [hkey]
    exact hundone.prune.nodup
  rw [get?_map (f := StorySymbol.evidence) fun _ => rfl,
    get?_map (f := StorySymbol.evidence) fun _ => rfl]
  cases hget : table.get? key with
  | none =>
    have hnone := get?_eq_none_iff.2 (hkeys ▸ get?_eq_none_iff.1 hget)
    rw [hnone]
  | some s =>
    obtain ⟨t, ht⟩ := Option.isSome_iff_exists.1
      (get?_isSome_iff.2 (hkeys.symm ▸ mem_keys_of_get? hget))
    rw [ht, Option.map_some, Option.map_some]
    rw [get?_prune hundone.nodup] at ht
    have ht := Option.eq_some_of_filter_eq_some ht
    have hcontents := contents_undone hlacks ht
    rw [before_of_get? hget] at hcontents
    refine congrArg some (StorySymbol.evidence_eq_of_contents hcontents ?_)
    -- The kind of a declared symbol is not revised; that of any other follows from its contents.
    cases hsystem : t.isSystem with
    | true => rw [undone_of_isSystem hlacks ht hsystem, before_of_get? hget]
    | false => exact (hundone.symbol ht).kind_eq (horder.symbol hget) hcontents hsystem

/-! ## What hangs on a goal

References lead from a symbol to all on which its verdict may rest. If they lead to one that the
goal defines, the verdict is taken back when the goal goes. -/

/-- The verdict of the symbol hangs on the goal: following references, one comes to a symbol of which
the goal has a definition. -/
def HangsOn (table : SymbolTable) (key : SymbolKey) (goal : String) : Prop :=
  ∃ source s, Relation.ReflTransGen table.RefersTo key source ∧ table.get? source = some s
    ∧ ∃ d ∈ s.definitions, d.goal = goal

/-- **What hangs on a goal is taken back when the goal is taken out.** -/
theorem mem_reachedByRemoving (h : table.HangsOn key goal) :
    key ∈ table.reachedByRemoving goal := by
  have hdefined {key : SymbolKey} (hkey : key ∈ table.definedBy goal) :
      key ∈ table.reachedByRemoving goal :=
    (closed_dependentsOf _ _).2 hkey
  obtain ⟨source, s, hreaches, hget, d, hd, hgoal⟩ := h
  induction hreaches using Relation.ReflTransGen.head_induction_on with
  | refl => exact hdefined (mem_definedBy hget hd hgoal)
  | @head key other hrefers _ ih =>
    obtain ⟨u, hu, e, he, href⟩ := hrefers
    by_cases hkey : key ∈ table.definedBy goal
    · exact hdefined hkey
    · -- The reference is still there, since it is not the goal's.
      refine dependentsOf_closed (s := strip goal u) (d := e) ?_ ?_ href ih
      · rw [get?_refresh, get?_map (f := strip goal) fun _ => rfl, hu]
        simp [hkey]
      · rwa [definitions_strip hu hkey]

/-- A declared symbol hangs on a goal only through definitions that it had before its declaration. -/
theorem HangsOn.exists_references (h : (table.addGoal goal types tree).1.HangsOn key goal)
    (hlacks : table.LacksGoal goal) (hsystem : (table.before key).isSystem = true) :
    ∃ d ∈ (table.before key).definitions, d.references ≠ [] := by
  -- Goals give it no definitions.
  have hdefinitions {u : StorySymbol} (hu : (table.addGoal goal types tree).1.get? key = some u) :
      u.definitions = (table.before key).definitions := by
    obtain ⟨touched, reached, rfl, -⟩ := exists_before_addGoal hu
    rw [StorySymbol.definitions_revised, definitions_gather_of_isSystem hsystem]
  obtain ⟨source, s, hreaches, hs, d, hd, hgoal⟩ := h
  rcases hreaches.cases_head with rfl | ⟨other, ⟨u, hu, e, he, href⟩, -⟩
  · rw [hdefinitions hs] at hd
    exact absurd hgoal ((hlacks.before key).definitions d hd)
  · rw [hdefinitions hu] at he
    exact ⟨e, he, List.ne_nil_of_mem href⟩

/-! ## The main result

Entering a goal and taking it out gives back what goals have said of each symbol. Verdicts may be
taken back in between, which the flag shows. -/

/-- **A goal that is taken out again leaves nothing behind.** The table has the same symbols in the
same order, and goals say the same about each. What hung on the goal while it was there is flagged,
except for declared symbols, which have no verdict to be taken back: such a symbol can hang on a goal
only if it was declared after it had been defined, and it is just what it was. -/
theorem removal_leaves_no_residue (hbuilt : table.IsBuilt) (hpruned : table.prune = table)
    (hlacks : table.LacksGoal goal) (types : TypeRegistry) (tree : Goal) :
    let added := (table.addGoal goal types tree).1
    let after := (added.removeGoal goal).prune
    after.map StorySymbol.evidence = table.map StorySymbol.evidence
      ∧ ∀ key t, after.get? key = some t → added.HangsOn key goal →
          t.needsUpdate = true
            ∨ (t.isSystem = true ∧ table.get? key = some t
              ∧ ∃ d ∈ t.definitions, d.references ≠ []) := by
  intro added after
  have horder := hbuilt.inOrder
  have htidy : table.IsTidy := hpruned ▸ IsTidy.prune table horder.nodup
  refine ⟨evidence_prune_undone horder htidy hlacks, fun key t hget hhangs => ?_⟩
  have hkey : key ∈ table.keys :=
    keys_prune_undone horder.nodup htidy hlacks ▸ mem_keys_of_get? hget
  obtain ⟨s, hs⟩ := Option.isSome_iff_exists.1 (get?_isSome_iff.2 hkey)
  have hundone : (table.undone goal types tree).get? key = some t := by
    have hnodup : (table.undone goal types tree).keys.Nodup := nodup_keys_undone horder.nodup
    exact Option.eq_some_of_filter_eq_some ((get?_prune hnodup).symm.trans hget)
  -- Taking back has no effect on declared symbols.
  cases hsystem : t.isSystem with
  | true =>
    obtain rfl := undone_of_isSystem hlacks hundone hsystem
    refine .inr ⟨rfl, ?_, hhangs.exists_references hlacks hsystem⟩
    rw [hs, before_of_get? hs]
  | false =>
    rw [undone, get?_removeGoal] at hundone
    obtain ⟨u, -, rfl⟩ := Option.map_eq_some_iff.1 hundone
    rw [StorySymbol.isSystem_revised] at hsystem
    rw [StorySymbol.revised_eq hsystem, decide_eq_true (mem_reachedByRemoving hhangs)]
    exact .inl rfl

/-- A table with a declared event and a database that is copied from another one. -/
def settledCopy : SymbolTable :=
  let header := declare {} "story_header" {}
    { name := "Dies", kind := .event, parameters := [], span := ⟨0, 0⟩ }
  let kept := TableStep.addGoal "Kept" {} (Sketch.goal [Sketch.call 1 "DB_X" [.integer 7]]
    [Sketch.rule (Sketch.call 2 "DB_X" [.name "_v"]) [] [Sketch.call 3 "DB_Y" [.name "_v"]]] [])
  (TableStep.update []).apply (kept.apply header.1)

/-- A goal that calls the event, writes to the database that is copied, and to a new one. -/
def draft : Goal :=
  Sketch.goal [Sketch.call 1 "DB_X" [.string "s"]]
    [Sketch.rule (Sketch.call 2 "Dies" []) [] [Sketch.call 3 "DB_Z" [.integer 1]]] []

/-- A symbol that took a type from the goal is flagged when the goal is gone, though it says again
what it said before. -/
theorem draft_leaves_the_copy_flagged :
    let after := ((settledCopy.addGoal "Draft" {} draft).1.removeGoal "Draft").prune
    settledCopy.IsBuilt ∧ settledCopy.prune = settledCopy ∧ settledCopy.LacksGoal "Draft"
      ∧ after.map StorySymbol.evidence = settledCopy.map StorySymbol.evidence
      ∧ ∃ t, after.get? ⟨"DB_Y", 1⟩ = some t ∧ t.needsUpdate = true := by
  intro after
  have hbuilt : settledCopy.IsBuilt := by
    unfold settledCopy
    exact .step (.step (.declare .empty _ _ _) _) _
  have hpruned : settledCopy.prune = settledCopy := by decide +kernel
  have hlacks : settledCopy.LacksGoal "Draft" := by decide +kernel
  obtain ⟨hevidence, hflagged⟩ := removal_leaves_no_residue hbuilt hpruned hlacks {} draft
  refine ⟨hbuilt, hpruned, hlacks, hevidence, ?_⟩
  -- The copy is inferred, refers to the database and so hangs on the draft, which writes into that.
  have hstays : (after.get? ⟨"DB_Y", 1⟩).any (fun t => !t.isSystem) = true := by decide +kernel
  have hcopies : ((settledCopy.addGoal "Draft" {} draft).1.get? ⟨"DB_Y", 1⟩).any (fun s =>
      s.definitions.any fun d => d.references.contains ⟨"DB_X", 1⟩) = true := by decide +kernel
  have hwrites : ((settledCopy.addGoal "Draft" {} draft).1.get? ⟨"DB_X", 1⟩).any (fun s =>
      s.definitions.any fun d => d.goal == "Draft") = true := by decide +kernel
  obtain ⟨t, ht, hinferred⟩ := (Option.any_eq_true _ _).1 hstays
  obtain ⟨s, hs, hs'⟩ := (Option.any_eq_true _ _).1 hcopies
  obtain ⟨d, hd, href⟩ := List.any_eq_true.1 hs'
  obtain ⟨u, hu, hu'⟩ := (Option.any_eq_true _ _).1 hwrites
  obtain ⟨e, he, hgoal⟩ := List.any_eq_true.1 hu'
  have hhangs : (settledCopy.addGoal "Draft" {} draft).1.HangsOn ⟨"DB_Y", 1⟩ "Draft" :=
    ⟨⟨"DB_X", 1⟩, u, .single ⟨s, hs, d, hd, List.contains_iff_mem.1 href⟩, hu, e, he,
      beq_iff_eq.1 hgoal⟩
  refine ⟨t, ht, (hflagged _ t ht hhangs).resolve_right fun hdeclared => ?_⟩
  simp [hdeclared.1] at hinferred

end SymbolTable

end StoryCheck
