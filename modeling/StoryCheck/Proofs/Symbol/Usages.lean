import StoryCheck.Proofs.Symbol.Contributions

/-!
# How often goals call symbols

A symbol lists the goal of each of its call sites, and again the goal of each that reads it as a
database and of each that writes it. So a goal stands in a list as often as it has a call site of
that sort. Declared symbols take part in this like all others.

* **`Ledger`** — the lists, each with the call sites that it takes in.
* **`entriesOf_addGoal`**, **`entriesOf_removeGoal`** — a list after an edit.
* **`CountsCalls`** — every list has every goal as often as its tree has a call site of that sort.
  Entering and taking out goals keep this up, and whatever leaves the lists alone does too.
-/

namespace StoryCheck

open Syntax

/-! ## Ledgers

The three lists of goals that a symbol keeps, for uses, reads and writes, are treated as one with a
parameter. -/

/-- The lists of goals that a symbol keeps. -/
inductive Ledger where
  /-- The goal of each call site. -/
  | usages
  /-- The goal of each call site that reads a database. -/
  | reads
  /-- The goal of each call site that writes a database. -/
  | writes
deriving DecidableEq, Repr

namespace Ledger

/-- The list as a symbol has it. -/
def entries : Ledger → StorySymbol → List String
  | usages => StorySymbol.usages
  | reads => StorySymbol.reads
  | writes => StorySymbol.writes

/-- Whether a call site is taken in. -/
def takes (ledger : Ledger) (call : Call) : Bool :=
  match ledger with
  | usages => true
  | reads => (definitionShape? call).any fun (kind, access) =>
      kind == .database && (access == .read || access == .head .ifRule)
  | writes => (definitionShape? call).any fun (kind, access) => kind == .database && access == .write

variable {ledger : Ledger} {s t : StorySymbol} {goal : String} {site : CallSite}
  {sites : List CallSite}

/-- The ledger of usages takes in all calls. -/
theorem filter_takes_usages (calls : List Call) : calls.filter usages.takes = calls :=
  List.filter_true calls

/-- The lists are part of what goals say. -/
theorem entries_congr (h : s.evidence = t.evidence) : ledger.entries s = ledger.entries t := by
  have hentries := congrArg ledger.entries h
  cases ledger <;> exact hentries

/-- Revising a symbol leaves them. -/
theorem entries_revised {touched reached : Bool} :
    ledger.entries (s.revised touched reached) = ledger.entries s := by
  cases hsystem : s.isSystem with
  | true => rw [StorySymbol.revised_of_isSystem hsystem]
  | false =>
    rw [StorySymbol.revised_eq hsystem]
    cases ledger <;> rfl

/-- Stripping it of a goal takes all entries of the goal. -/
theorem entries_strip : ledger.entries (SymbolTable.strip goal s)
    = (ledger.entries s).filter fun g => g != goal := by
  cases ledger <;> rfl

/-- In the beginning they are empty. -/
theorem entries_ofKey (key : SymbolKey) : ledger.entries (.ofKey key) = [] := by
  cases ledger <;> rfl

/-- A declaration enters nothing. -/
theorem entries_declared {types : TypeRegistry} {declaration : Declaration} :
    ledger.entries (SymbolTable.declared goal types declaration s) = ledger.entries s := by
  cases ledger <;> rfl

/-- A call site enters its goal where it is taken in. -/
theorem entries_addSite : ledger.entries (SymbolTable.addSite goal site s)
    = ledger.entries s ++ if ledger.takes site.call then [goal] else [] := by
  unfold SymbolTable.addSite takes
  cases definitionShape? site.call with
  | none => cases ledger <;> simp [entries]
  | some shape =>
    obtain ⟨kind, access⟩ := shape
    have hif (entries : List String) (c : Prop) [Decidable c] :
        (if c then entries ++ [goal] else entries) = entries ++ if c then [goal] else [] := by
      split <;> simp
    dsimp only [Option.any_some]
    -- What a declared symbol does without is the definition, which is in no list.
    cases ledger with
    | usages => split <;> rfl
    | reads => split <;> exact hif s.reads _
    | writes => split <;> exact hif s.writes _

/-- So a goal is entered once for each of its call sites. -/
theorem entries_gather : ledger.entries (SymbolTable.gather goal sites s)
    = ledger.entries s
      ++ List.replicate (sites.countP fun site => ledger.takes site.call) goal := by
  -- One site after the other.
  induction sites generalizing s with
  | nil => exact (List.append_nil _).symm
  | cons site rest ih =>
    show ledger.entries (SymbolTable.gather goal rest (SymbolTable.addSite goal site s)) = _
    rw [ih, entries_addSite, List.append_assoc, List.countP_cons]
    split
    · rw [List.replicate_succ]
      rfl
    · rfl

end Ledger

/-- The usages are one of the lists. -/
theorem StorySymbol.usages_revised {s : StorySymbol} {touched reached : Bool} :
    (s.revised touched reached).usages = s.usages := by
  have hentries : Ledger.usages.entries (s.revised touched reached) = Ledger.usages.entries s :=
    Ledger.entries_revised
  exact hentries

/-- How often the goal of a name has a call site of a symbol that a list takes in. -/
def Trees.callCount (trees : Trees) (ledger : Ledger) (name : String) (key : SymbolKey) : Nat :=
  ((trees name).map fun tree =>
    ((tree.calls.filter ledger.takes).map Call.key).count key).getD 0

/-- What is taken in by some list is a call site. -/
theorem Trees.callCount_le (trees : Trees) (ledger : Ledger) (name : String) (key : SymbolKey) :
    trees.callCount ledger name key ≤ trees.callCount .usages name key := by
  unfold callCount
  cases trees name with
  | none => exact Nat.le_refl 0
  | some tree =>
    rw [Option.map_some, Option.map_some, Ledger.filter_takes_usages]
    exact (List.filter_sublist.map Call.key).count_le key

namespace SymbolTable

variable {table : SymbolTable} {key : SymbolKey} {s : StorySymbol} {goal : String}
  {types : TypeRegistry} {trees : Trees} {tree : Goal} {sites : List CallSite} {ledger : Ledger}

/-- What a list has of a symbol. -/
def entriesOf (table : SymbolTable) (ledger : Ledger) (key : SymbolKey) : List String :=
  ((table.get? key).map ledger.entries).getD []

/-- The goal of each call site of a symbol. -/
def usagesOf (table : SymbolTable) (key : SymbolKey) : List String :=
  ((table.get? key).map (·.usages)).getD []

/-! ## Lists after an edit

What each operation on a table does to the lists. Entering and taking out a goal are the only ones
that touch them. -/

/-- The list of a symbol that is in the table. -/
theorem entriesOf_of_get? (hget : table.get? key = some s) :
    table.entriesOf ledger key = ledger.entries s := by
  rw [entriesOf, hget]
  rfl

/-- After call sites were entered. -/
theorem entriesOf_filled (key : SymbolKey) : (table.filled goal sites).entriesOf ledger key
    = table.entriesOf ledger key
      ++ List.replicate ((sitesOf sites key).countP fun site => ledger.takes site.call) goal := by
  unfold entriesOf
  rw [get?_filled]
  split
  · next hnil => simp [hnil]
  · rw [Option.map_some, Option.getD_some, Ledger.entries_gather]
    cases table.get? key with
    | none => exact congrArg (· ++ _) (Ledger.entries_ofKey key)
    | some s => rfl

/-- The call sites of a tree that call a symbol are its calls with that key. -/
theorem countP_sitesOf_ofGoal (types : TypeRegistry) (tree : Goal) (key : SymbolKey) :
    (sitesOf (CallSite.ofGoal types tree) key).countP (fun site => ledger.takes site.call)
      = ((tree.calls.filter ledger.takes).map Call.key).count key := by
  rw [← CallSite.map_call_ofGoal types tree, List.filter_map, List.map_map, List.count,
    List.countP_map, List.countP_filter, sitesOf, List.countP_filter]
  refine List.countP_congr fun site _ => ?_
  simp [CallSite.key, and_comm]

/-- After a goal was entered it stands there as often as it calls the symbol. -/
theorem entriesOf_addGoal (table : SymbolTable) (goal : String) (types : TypeRegistry) (tree : Goal)
    (key : SymbolKey) : (table.addGoal goal types tree).1.entriesOf ledger key
      = table.entriesOf ledger key
        ++ List.replicate (((tree.calls.filter ledger.takes).map Call.key).count key) goal := by
  rw [← countP_sitesOf_ofGoal types, ← entriesOf_filled]
  unfold entriesOf
  rw [get?_addGoal, Option.map_map]
  simp only [Function.comp_def, Ledger.entries_revised]

/-- After it was taken out it does not stand there. -/
theorem entriesOf_removeGoal (table : SymbolTable) (goal : String) (key : SymbolKey) :
    (table.removeGoal goal).entriesOf ledger key
      = (table.entriesOf ledger key).filter fun g => g != goal := by
  unfold entriesOf
  rw [get?_removeGoal, Option.map_map]
  cases table.get? key with
  | none => rfl
  | some s => exact Ledger.entries_revised.trans Ledger.entries_strip

/-- Taking everything back leaves the lists. -/
theorem entriesOf_invalidateAll (table : SymbolTable) (key : SymbolKey) :
    table.invalidateAll.entriesOf ledger key = table.entriesOf ledger key := by
  unfold entriesOf
  rw [get?_invalidateAll, Option.map_map]
  congr 2
  funext s
  exact Ledger.entries_congr s.evidence_invalidate

/-- An update leaves the lists. -/
theorem entriesOf_update (table : SymbolTable) (weights : Weights) (key : SymbolKey) :
    (table.update weights).1.entriesOf ledger key = table.entriesOf ledger key := by
  have hevolves := table.evolves_sweeps weights
  unfold entriesOf
  rw [get?_update]
  cases hget : table.get? key with
  | none => rw [hevolves.get?_eq_none_iff.2 hget]; rfl
  | some s =>
    obtain ⟨t, ht, hst⟩ := hevolves.symbol hget
    rw [ht]
    exact Ledger.entries_congr hst.evidence_eq

/-- Resolving everything anew leaves the lists. -/
theorem entriesOf_resolveAll (table : SymbolTable) (weights : Weights) (key : SymbolKey) :
    (table.invalidateAll.update weights).1.entriesOf ledger key = table.entriesOf ledger key :=
  (entriesOf_update _ weights key).trans (entriesOf_invalidateAll table key)

/-- Declaring symbols uses none of them. -/
theorem entriesOf_declareAll (goal : String) (types : TypeRegistry)
    (declarations : List Declaration) (key : SymbolKey) :
    (table.declareAll goal types declarations).entriesOf ledger key
      = table.entriesOf ledger key := by
  induction declarations generalizing table with
  | nil => rfl
  | cons declaration rest ih =>
    refine ih.trans ?_
    unfold entriesOf
    rw [get?_declare]
    split
    · next heq =>
      subst heq
      rw [Option.map_some, Option.getD_some, Ledger.entries_declared]
      cases table.get? declaration.key with
      | none => exact Ledger.entries_ofKey _
      | some s => rfl
    · rfl

/-! ## Counting calls

A list has a goal as often as the goal has a call of the symbol that the list is about. -/

/-- Every list has every goal as often as it has such a call site of the symbol, and nothing else
is listed. -/
def CountsCalls (table : SymbolTable) (trees : Trees) : Prop :=
  ∀ ledger key name, (table.entriesOf ledger key).count name = trees.callCount ledger name key

/-- What leaves the lists alone leaves the counts. -/
theorem CountsCalls.of_entriesOf {after : SymbolTable} (h : table.CountsCalls trees)
    (hentries : ∀ ledger key, after.entriesOf ledger key = table.entriesOf ledger key) :
    after.CountsCalls trees := by
  intro ledger key name
  rw [hentries]
  exact h ledger key name

/-- A goal that was not there is listed for each of its call sites. -/
theorem CountsCalls.addGoal (h : table.CountsCalls trees) (hnew : trees goal = none) :
    (table.addGoal goal types tree).1.CountsCalls (Function.update trees goal (some tree)) := by
  intro ledger key name
  rw [entriesOf_addGoal, List.count_append, h, List.count_replicate]
  unfold Trees.callCount
  by_cases hname : name = goal
  · subst hname
    simp [hnew]
  · simp [hname, Ne.symm hname]

/-- A goal that goes is not listed any more. -/
theorem CountsCalls.removeGoal (h : table.CountsCalls trees) (goal : String) :
    (table.removeGoal goal).CountsCalls (Function.update trees goal none) := by
  intro ledger key name
  rw [entriesOf_removeGoal]
  by_cases hname : name = goal
  · subst hname
    rw [List.count_eq_zero_of_not_mem (by simp), Trees.callCount, Function.update_self]
    rfl
  · rw [List.count_filter (by simpa using hname), h, Trees.callCount, Trees.callCount,
      Function.update_of_ne hname]

/-- A symbol that nothing uses has nothing in any list. -/
theorem CountsCalls.entries_eq_nil (h : table.CountsCalls trees) (hget : table.get? key = some s)
    (hunused : s.usages = []) : ledger.entries s = [] := by
  refine List.eq_nil_iff_forall_not_mem.2 fun name hmem => ?_
  have hcalls := trees.callCount_le ledger name key
  rw [← h, ← h, entriesOf_of_get? hget, entriesOf_of_get? hget] at hcalls
  have hnone : (Ledger.usages.entries s).count name = 0 := by
    rw [show Ledger.usages.entries s = [] from hunused]
    rfl
  have := List.count_pos_iff.2 hmem
  omega

/-- What is taken out when nothing refers to it has nothing in its lists. -/
theorem CountsCalls.prune (h : table.CountsCalls trees) (hnodup : table.keys.Nodup) :
    table.prune.CountsCalls trees := by
  refine h.of_entriesOf fun ledger key => ?_
  unfold entriesOf
  rw [get?_prune hnodup]
  cases hget : table.get? key with
  | none => rfl
  | some s =>
    cases hreferred : isReferred s with
    | true => rw [Option.filter_some_pos hreferred]
    | false =>
      have hunused : s.usages = [] := by
        simp only [isReferred, Bool.or_eq_false_iff, Bool.not_eq_false', List.isEmpty_iff] at hreferred
        exact hreferred.2
      rw [Option.filter_some_neg (by simp [hreferred]), Option.map_some,
        h.entries_eq_nil hget hunused]
      rfl

end SymbolTable

end StoryCheck
