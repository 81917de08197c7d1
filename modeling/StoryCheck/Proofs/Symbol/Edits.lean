import Mathlib.Tactic.Common
import StoryCheck.Proofs.Symbol.Lookup

/-!
# What edits do to a symbol table

A goal is entered call site by call site and taken out in one go; either way the symbols whose
definitions changed are taken back together with all that take types from them. This module says
how a symbol is looked up after each of these steps.

* **`get?_enter`** — one call site touches the symbol that it calls and no other.
* **`dependentsOf_closed`** — the symbols that an edit reaches are closed under taking types: the
  rounds of `dependentsOf` do not run out before nothing new turns up.
* **`get?_addGoal`, `get?_removeGoal`** — the two edits as a whole.
-/

namespace StoryCheck

open Syntax

/-- The symbol that is declared. -/
abbrev Syntax.Declaration.key (declaration : Syntax.Declaration) : SymbolKey :=
  ⟨declaration.name, declaration.arity⟩

/-! ## What an edit leaves of a symbol

Two parts of a symbol go separate ways: the verdict, which walks and only walks change, and what
goals say, which edits change. A symbol that extends another has its verdict and more definitions. -/

namespace StorySymbol

variable {s t u : StorySymbol}

/-- The symbol without what goals say about it. -/
def verdict (s : StorySymbol) : StorySymbol :=
  { s with kind := .unknown, definitions := [], usages := [], reads := [], writes := [] }

/-- The key belongs to the verdict, and with it whatever is known about a symbol by name. -/
theorem key_eq_of_verdict (h : t.verdict = s.verdict) : t.key = s.key :=
  (congrArg StorySymbol.key h :)

/-- Whether the header declared the symbol belongs to the verdict. -/
theorem isSystem_eq_of_verdict (h : t.verdict = s.verdict) : t.isSystem = s.isSystem :=
  (congrArg StorySymbol.isSystem h :)

/-- Whether the symbol was given up belongs to the verdict. -/
theorem isDead_eq_of_verdict (h : t.verdict = s.verdict) : t.isDead = s.isDead :=
  (congrArg StorySymbol.isDead h :)

/-- Whether the symbol is flagged belongs to the verdict. -/
theorem needsUpdate_eq_of_verdict (h : t.verdict = s.verdict) : t.needsUpdate = s.needsUpdate :=
  (congrArg StorySymbol.needsUpdate h :)

/-- The parameters that the symbol was given belong to the verdict. -/
theorem parameters_eq_of_verdict (h : t.verdict = s.verdict) : t.parameters = s.parameters :=
  (congrArg StorySymbol.parameters h :)

/-- The definition that was adopted belongs to the verdict. -/
theorem canonical_eq_of_verdict (h : t.verdict = s.verdict) : t.canonical = s.canonical :=
  (congrArg StorySymbol.canonical h :)

/-- What a walk would answer about the symbol can be read off the verdict. -/
theorem resolution_eq_of_verdict (h : t.verdict = s.verdict) : t.resolution = s.resolution :=
  (congrArg StorySymbol.resolution h :)

/-- The symbol still has its verdict, and the definition that it adopted is still in place. -/
structure Extends (s t : StorySymbol) : Prop where
  verdict : t.verdict = s.verdict
  declared : s.isSystem = true → t.definitions ⊆ s.definitions
  inferred : s.isSystem = false → s.definitions <+: t.definitions

namespace Extends

/-- A symbol with the same verdict and the same definitions extends another. -/
theorem of_definitions (hverdict : t.verdict = s.verdict)
    (hdefinitions : t.definitions = s.definitions) : s.Extends t where
  verdict := hverdict
  declared _ := hdefinitions ▸ List.Subset.refl _
  inferred _ := hdefinitions ▸ List.prefix_refl _

/-- Every symbol extends itself. -/
theorem refl (s : StorySymbol) : s.Extends s := .of_definitions rfl rfl

theorem key (h : s.Extends t) : t.key = s.key := key_eq_of_verdict h.verdict

theorem isSystem (h : s.Extends t) : t.isSystem = s.isSystem := isSystem_eq_of_verdict h.verdict

theorem isDead (h : s.Extends t) : t.isDead = s.isDead := isDead_eq_of_verdict h.verdict

theorem needsUpdate (h : s.Extends t) : t.needsUpdate = s.needsUpdate :=
  needsUpdate_eq_of_verdict h.verdict

theorem parameters (h : s.Extends t) : t.parameters = s.parameters :=
  parameters_eq_of_verdict h.verdict

theorem canonical (h : s.Extends t) : t.canonical = s.canonical := canonical_eq_of_verdict h.verdict

theorem resolution (h : s.Extends t) : t.resolution = s.resolution :=
  resolution_eq_of_verdict h.verdict

/-- What extends a symbol is extended by what extends that. -/
theorem trans (h : s.Extends t) (h' : t.Extends u) : s.Extends u where
  verdict := h'.verdict.trans h.verdict
  declared hsystem := List.Subset.trans (h'.declared (h.isSystem.trans hsystem)) (h.declared hsystem)
  inferred hsystem := (h.inferred hsystem).trans (h'.inferred (h.isSystem.trans hsystem))

end Extends

end StorySymbol

namespace SymbolTable

variable {table : SymbolTable} {key other : SymbolKey} {s : StorySymbol}

/-! ## Symbols that come and go

A symbol comes with the first call site that mentions it and goes when a table is pruned of those
nobody refers to. -/

/-- A key that is not there is put last. -/
theorem keys_ensure (table : SymbolTable) (key : SymbolKey) :
    (table.ensure key).keys = if key ∈ table.keys then table.keys else table.keys ++ [key] := by
  unfold ensure
  by_cases hkey : key ∈ table.keys
  · rw [if_pos (get?_isSome_iff.2 hkey), if_pos hkey]
  · rw [if_neg (mt get?_isSome_iff.1 hkey), if_neg hkey]
    simp [keys, StorySymbol.ofKey]

/-- No key comes twice in that way. -/
theorem nodup_keys_ensure (hnodup : table.keys.Nodup) : (table.ensure key).keys.Nodup := by
  rw [keys_ensure]
  split
  · exact hnodup
  · next hkey =>
    refine List.nodup_append.2 ⟨hnodup, by simp, fun a ha b hb => ?_⟩
    rw [List.mem_singleton.1 hb]
    exact fun heq => hkey (heq ▸ ha)

/-- A symbol that was not there is the empty one. -/
theorem get?_ensure :
    (table.ensure key).get? other
      = if other = key then some ((table.get? key).getD (.ofKey key)) else table.get? other := by
  unfold ensure
  cases hget : table.get? key with
  | some s =>
    simp only [Option.isSome_some, if_true, Option.getD_some]
    split
    · next heq => rw [heq, hget]
    · rfl
  | none =>
    have happend : (⟨table.symbols ++ [.ofKey key]⟩ : SymbolTable).get? other
        = (table.get? other).or (if other = key then some (.ofKey key) else none) := by
      simp only [get?, List.find?_append, List.find?_singleton]
      by_cases heq : other = key
      · simp [heq, StorySymbol.ofKey]
      · simp [heq, StorySymbol.ofKey, Ne.symm heq]
    simp only [Option.isSome_none, Bool.false_eq_true, if_false, happend, Option.getD_none]
    split
    · next heq => rw [heq, hget, Option.none_or]
    · rw [Option.or_none]

/-- In a table that holds no key twice, what is looked up after taking symbols out is what was
looked up before, if it was not taken out. -/
theorem get?_filter {keep : StorySymbol → Bool} (hnodup : table.keys.Nodup) :
    (⟨table.symbols.filter keep⟩ : SymbolTable).get? key = (table.get? key).filter keep := by
  obtain ⟨symbols⟩ := table
  simp only [get?, keys] at hnodup ⊢
  induction symbols with
  | nil => rfl
  | cons s rest ih =>
    obtain ⟨hfirst, hrest⟩ := List.nodup_cons.1 hnodup
    specialize ih hrest
    by_cases hkey : s.key = key
    · have hnone : rest.find? (fun s => s.key == key) = none := by
        simp only [List.find?_eq_none, beq_iff_eq]
        exact fun t ht heq => hfirst (List.mem_map.2 ⟨t, ht, heq.trans hkey.symm⟩)
      cases hkeep : keep s with
      | true => simp [hkey, hkeep, Option.filter_some]
      | false => simp [hkey, hkeep, ih, hnone, Option.filter_some]
    · cases hkeep : keep s with
      | true => simp [hkey, hkeep, ih]
      | false => simp [hkey, hkeep, ih]

/-- Pruning takes away the symbols that nobody refers to and leaves the others. -/
theorem get?_prune (hnodup : table.keys.Nodup) :
    table.prune.get? key = (table.get? key).filter isReferred :=
  get?_filter hnodup

/-- No key comes twice by pruning. -/
theorem nodup_keys_prune (hnodup : table.keys.Nodup) : table.prune.keys.Nodup :=
  hnodup.sublist (List.filter_sublist.map _)

/-! ## Entering call sites

A call site adds a definition, a usage, a read or a write to the symbol it calls, and a symbol of
that name is put into the table first if there is none. -/

/-- Puts in one call site of a goal. -/
def enter (goal : String) (table : SymbolTable) (site : CallSite) : SymbolTable :=
  (table.ensure site.key).modify site.key (addSite goal site)

/-- Puts in the call sites of a goal, before any flag is set. -/
def filled (table : SymbolTable) (goal : String) (sites : List CallSite) : SymbolTable :=
  sites.foldl (enter goal) table

variable {goal : String} {site : CallSite}

/-- The key of a symbol stays. -/
@[simp] theorem key_addSite (s : StorySymbol) : (addSite goal site s).key = s.key := by
  unfold addSite
  cases definitionShape? site.call with
  | none => rfl
  | some shape =>
    obtain ⟨kind, access⟩ := shape
    dsimp only
    split <;> rfl

/-- A call site only adds to a symbol. -/
theorem extends_addSite (goal : String) (site : CallSite) (s : StorySymbol) :
    s.Extends (addSite goal site s) := by
  unfold addSite
  cases definitionShape? site.call with
  | none => exact .of_definitions rfl rfl
  | some shape =>
    obtain ⟨kind, access⟩ := shape
    dsimp only
    split
    · exact .of_definitions rfl rfl
    · next hsystem => exact ⟨rfl, fun h => absurd h hsystem, fun _ => List.prefix_append _ _⟩

/-- The kind is worked out from the definitions and not part of a verdict. -/
theorem extends_refreshKind (s : StorySymbol) : s.Extends s.refreshKind := by
  unfold StorySymbol.refreshKind
  split
  · exact .refl s
  · exact .of_definitions rfl rfl

/-- One call site changes one symbol. What it changes it to depends on that symbol alone, so a whole
goal can be followed symbol by symbol. -/
theorem get?_enter :
    (table.enter goal site).get? key
      = if key = site.key then
          some (addSite goal site ((table.get? site.key).getD (.ofKey site.key)))
        else table.get? key := by
  rw [enter, get?_modify key_addSite, get?_ensure, if_pos rfl]
  split
  · rfl
  · next hne => rw [get?_ensure, if_neg hne]

/-- No key comes twice by a call site. -/
theorem nodup_keys_enter (hnodup : table.keys.Nodup) : (table.enter goal site).keys.Nodup := by
  rw [enter, keys_modify key_addSite]
  exact nodup_keys_ensure hnodup

/-! ## Reaching dependents

`spread` works in rounds. What was seen before the last round has all its dependents among what is
seen now, so once a round finds nothing new the symbols seen are closed. Every other round finds a
symbol, of which there are only so many. -/

/-- The symbols are closed under taking types from them. -/
def ClosedUnderDependents (table : SymbolTable) (keys : List SymbolKey) : Prop :=
  ∀ s ∈ table.symbols, s.dependsOn keys = true → s.key ∈ keys

/-- A symbol depends on keys if one of its definitions takes a type from one of them. -/
theorem dependsOn_iff {keys : List SymbolKey} :
    s.dependsOn keys = true ↔ ∃ d ∈ s.definitions, ∃ ref ∈ d.references, ref ∈ keys := by
  simp [StorySymbol.dependsOn]

/-- A round finds the symbols that are new and depend on what the round before has found. -/
theorem mem_nextDependents {seen frontier : List SymbolKey} :
    key ∈ table.nextDependents seen frontier
      ↔ ∃ s ∈ table.symbols, s.key ∉ seen ∧ s.dependsOn frontier = true ∧ s.key = key := by
  simp [nextDependents, and_assoc]

/-- The symbols that were not seen yet. -/
def unseen (table : SymbolTable) (seen : List SymbolKey) : List StorySymbol :=
  table.symbols.filter fun s => !seen.contains s.key

/-- A round that finds something leaves less unseen. -/
theorem length_unseen_lt {seen frontier : List SymbolKey}
    (hnext : table.nextDependents seen frontier ≠ []) :
    (table.unseen (seen ++ table.nextDependents seen frontier)).length
      < (table.unseen seen).length := by
  obtain ⟨key, hkey⟩ := List.exists_mem_of_ne_nil _ hnext
  obtain ⟨s, hmem, hseen, -, rfl⟩ := mem_nextDependents.1 hkey
  have hfilter : table.unseen (seen ++ table.nextDependents seen frontier)
      = (table.unseen seen).filter
          fun s => !(table.nextDependents seen frontier).contains s.key := by
    simp only [unseen, List.filter_filter]
    refine List.filter_congr fun t _ => ?_
    simp [List.contains_eq_mem, Bool.and_comm]
  rw [hfilter, List.length_filter_lt_length_iff_exists]
  exact ⟨s, List.mem_filter.2 ⟨hmem, by simpa using hseen⟩, by simpa using hkey⟩

/-- If there are more rounds than symbols to be found, the rounds end with a closed set. -/
theorem closed_spread (rounds : Nat) (seen frontier : List SymbolKey)
    (hrounds : (table.unseen seen).length < rounds) (hfrontier : frontier ⊆ seen)
    (hseen : ∀ s ∈ table.symbols, s.dependsOn seen = true →
      s.key ∈ seen ∨ s.dependsOn frontier = true) :
    table.ClosedUnderDependents (table.spread rounds seen frontier)
      ∧ seen ⊆ table.spread rounds seen frontier := by
  -- The invariant: whoever depends on what was seen has been seen or depends on what was found
  -- last.
  induction rounds generalizing seen frontier with
  | zero => omega
  | succ rounds ih =>
    unfold spread
    cases hnext : table.nextDependents seen frontier with
    | nil =>
      refine ⟨fun s hmem hdepends => ?_, List.Subset.refl seen⟩
      rcases hseen s hmem hdepends with hkey | hdepends
      · exact hkey
      · by_contra hkey
        have hfound := mem_nextDependents.2 ⟨s, hmem, hkey, hdepends, rfl⟩
        rw [hnext] at hfound
        cases hfound
    | cons first rest =>
      simp only
      rw [← hnext]
      have hless := length_unseen_lt (by rw [hnext]; exact List.cons_ne_nil first rest)
      -- A dependent of what was seen already is seen or found in this round.
      have hseen' : ∀ s ∈ table.symbols,
          s.dependsOn (seen ++ table.nextDependents seen frontier) = true →
          s.key ∈ seen ++ table.nextDependents seen frontier
            ∨ s.dependsOn (table.nextDependents seen frontier) = true := by
        intro s hmem hdepends
        obtain ⟨d, hd, ref, href, hreached⟩ := dependsOn_iff.1 hdepends
        rcases List.mem_append.1 hreached with hold | hnew
        · left
          by_cases hkey : s.key ∈ seen
          · exact List.mem_append_left _ hkey
          · rcases hseen s hmem (dependsOn_iff.2 ⟨d, hd, ref, href, hold⟩) with hkey' | hdepends'
            · exact absurd hkey' hkey
            · exact List.mem_append_right _ (mem_nextDependents.2 ⟨s, hmem, hkey, hdepends', rfl⟩)
        · exact Or.inr (dependsOn_iff.2 ⟨d, hd, ref, href, hnew⟩)
      obtain ⟨hclosed, hsubset⟩ := ih _ _ (by omega) (List.subset_append_right _ _) hseen'
      exact ⟨hclosed, fun key hmem => hsubset (List.mem_append_left _ hmem)⟩

/-- The rounds that are granted are as many as the symbols, so they suffice. -/
theorem closed_dependentsOf (table : SymbolTable) (changed : List SymbolKey) :
    table.ClosedUnderDependents (table.dependentsOf changed)
      ∧ changed ⊆ table.dependentsOf changed := by
  refine closed_spread (table.size + 1) changed changed ?_ (List.Subset.refl _)
    fun _ _ h => Or.inr h
  exact Nat.lt_succ_of_le (List.length_filter_le _ _)

/-- **What takes a type from a symbol that is reached is reached.** -/
theorem dependentsOf_closed {changed : List SymbolKey} {d : SymbolDefinition}
    (hget : table.get? key = some s) (hd : d ∈ s.definitions) (href : other ∈ d.references)
    (hother : other ∈ table.dependentsOf changed) : key ∈ table.dependentsOf changed := by
  rw [← key_of_get? hget]
  exact (table.closed_dependentsOf changed).1 s (mem_symbols_of_get? hget)
    (dependsOn_iff.2 ⟨d, hd, other, href, hother⟩)

/-! ## Taking back

To take back a verdict is to drop it and to flag the symbol. Declared symbols are left as they are. -/

/-- A symbol of the header stays one. -/
theorem isSystem_invalidate (s : StorySymbol) : s.invalidate.isSystem = s.isSystem := by
  unfold StorySymbol.invalidate
  split <;> rfl

/-- Nothing is taken back of a symbol of the header. -/
theorem invalidate_of_isSystem (hsystem : s.isSystem = true) : s.invalidate = s := by
  simp [StorySymbol.invalidate, hsystem]

/-- Any other symbol has no definition adopted afterwards. -/
theorem canonical_invalidate (hsystem : s.isSystem = false) : s.invalidate.canonical = none := by
  simp [StorySymbol.invalidate, hsystem]

/-- Taking back everything leaves the keys. -/
theorem keys_invalidateAll (table : SymbolTable) : table.invalidateAll.keys = table.keys :=
  keys_map StorySymbol.key_invalidate

/-- Taking back everything does the same to each symbol. -/
theorem get?_invalidateAll : table.invalidateAll.get? key = (table.get? key).map .invalidate :=
  get?_map StorySymbol.key_invalidate

/-- An edit takes back what depends on the symbols that were changed, and nothing else. -/
theorem get?_invalidateFrom {changed : List SymbolKey} :
    (table.invalidateFrom changed).get? key
      = (table.get? key).map fun s =>
          if key ∈ table.dependentsOf changed then s.invalidate else s := by
  unfold invalidateFrom
  rw [get?_map (by intro s; split <;> simp)]
  cases hget : table.get? key with
  | none => rfl
  | some s => simp [key_of_get? hget]

/-- The keys stay in place. -/
theorem keys_invalidateFrom {changed : List SymbolKey} :
    (table.invalidateFrom changed).keys = table.keys :=
  keys_map (by intro s; split <;> simp)

/-! ## Whole edits

Both edits change definitions first, refresh the kind of the symbols whose definitions changed, and
then take back what depends on these. -/

/-- Refreshes the kind of some symbols. -/
def refresh (table : SymbolTable) (changed : List SymbolKey) : SymbolTable :=
  table.map fun s => if changed.contains s.key then s.refreshKind else s

/-- The kinds of the changed symbols are refreshed. -/
theorem get?_refresh {changed : List SymbolKey} :
    (table.refresh changed).get? key
      = (table.get? key).map fun s => if key ∈ changed then s.refreshKind else s := by
  unfold refresh
  rw [get?_map (by intro s; split <;> simp)]
  cases hget : table.get? key with
  | none => rfl
  | some s => simp [key_of_get? hget]

/-- The keys stay in place here, too. -/
theorem keys_refresh {changed : List SymbolKey} : (table.refresh changed).keys = table.keys :=
  keys_map (by intro s; split <;> simp)

/-- The symbols that the call sites define. -/
def definedKeys (table : SymbolTable) (sites : List CallSite) : List SymbolKey :=
  (sites.filter table.isDefining).map (·.key)

/-- Entering a goal is entering its call sites, refreshing and taking back. -/
theorem addGoal_fst (table : SymbolTable) (goal : String) (types : TypeRegistry) (tree : Goal) :
    (table.addGoal goal types tree).1
      = ((table.filled goal (CallSite.ofGoal types tree)).refresh
          (table.definedKeys (CallSite.ofGoal types tree))).invalidateFrom
          (table.definedKeys (CallSite.ofGoal types tree)) := rfl

/-- The symbol without what a goal contributed. -/
def strip (goal : String) (s : StorySymbol) : StorySymbol :=
  { s with
    definitions := s.definitions.filter fun d => d.goal != goal
    usages := s.usages.filter fun g => g != goal
    reads := s.reads.filter fun g => g != goal
    writes := s.writes.filter fun g => g != goal }

/-- The symbols of which a goal has definitions. -/
def definedBy (table : SymbolTable) (goal : String) : List SymbolKey :=
  (table.symbols.filter fun s => s.definitions.any fun d => d.goal == goal).map (·.key)

/-- Taking out a goal is stripping every symbol, refreshing and taking back. -/
theorem removeGoal_eq (table : SymbolTable) (goal : String) :
    table.removeGoal goal
      = ((table.map (strip goal)).refresh (table.definedBy goal)).invalidateFrom
          (table.definedBy goal) := rfl

/-- A symbol with a definition of the goal is among those the goal defines. -/
theorem mem_definedBy {d : SymbolDefinition} (hget : table.get? key = some s)
    (hd : d ∈ s.definitions) (hgoal : d.goal = goal) : key ∈ table.definedBy goal := by
  refine List.mem_map.2 ⟨s, List.mem_filter.2 ⟨mem_symbols_of_get? hget, ?_⟩, key_of_get? hget⟩
  exact List.any_eq_true.2 ⟨d, hd, beq_iff_eq.2 hgoal⟩

/-- A symbol of which a goal has no definition keeps its definitions when the goal is taken out. -/
theorem definitions_strip (hget : table.get? key = some s) (hkey : key ∉ table.definedBy goal) :
    (strip goal s).definitions = s.definitions := by
  refine List.filter_eq_self.2 fun d hd => ?_
  rw [bne_iff_ne]
  exact fun hgoal => hkey (mem_definedBy hget hd hgoal)

/-! ## Declarations

A declaration makes its symbol a system symbol with fixed types. It is entered like a call site,
into a symbol that may have been used before. -/

/-- What a declaration makes of its symbol. -/
def declared (goal : String) (types : TypeRegistry) (declaration : Declaration)
    (s : StorySymbol) : StorySymbol :=
  { s with
    kind := SymbolKind.ofDeclaration declaration.kind
    parameters := declaredParameters types declaration
    isSystem := true
    isDead := false
    needsUpdate := false
    definitions :=
      { goal, span := declaration.span, start := 0
        kind := SymbolKind.ofDeclaration declaration.kind, access := .declaration
        parameters := (declaredParameters types declaration).map fun p =>
          { name := p.name, source := .explicit p.type, flow := p.flow } }
      :: s.definitions.filter fun d => d.access != .declaration
    canonical := some 0 }

/-- The key of the symbol stays. -/
@[simp] theorem key_declared {types : TypeRegistry} {declaration : Declaration}
    (s : StorySymbol) : (declared goal types declaration s).key = s.key := rfl

/-- The table after one declaration. -/
theorem declare_fst (table : SymbolTable) (goal : String) (types : TypeRegistry)
    (declaration : Declaration) :
    (table.declare goal types declaration).1
      = (table.ensure declaration.key).modify declaration.key
          (declared goal types declaration) := rfl

/-- A declaration changes the symbol that it declares and no other. -/
theorem get?_declare {types : TypeRegistry} {declaration : Declaration} :
    (table.declare goal types declaration).1.get? key
      = if key = declaration.key then
          some (declared goal types declaration
            ((table.get? declaration.key).getD (.ofKey declaration.key)))
        else table.get? key := by
  rw [declare_fst, get?_modify key_declared, get?_ensure, if_pos rfl]
  split
  · rfl
  · next hne => rw [get?_ensure, if_neg hne]

/-- No key comes twice by a declaration. -/
theorem nodup_keys_declare {types : TypeRegistry} {declaration : Declaration}
    (hnodup : table.keys.Nodup) : (table.declare goal types declaration).1.keys.Nodup := by
  rw [declare_fst, keys_modify key_declared]
  exact nodup_keys_ensure hnodup

/-- Declarations alone make a table in which every symbol is declared and settled, and takes no
types. -/
theorem declareAll_spec (goal : String) (types : TypeRegistry) (declarations : List Declaration) :
    (declareAll {} goal types declarations).keys.Nodup
      ∧ ∀ {key s}, (declareAll {} goal types declarations).get? key = some s →
        s.isSystem = true ∧ s.isDead = false ∧ s.needsUpdate = false
          ∧ ∀ d ∈ s.definitions, d.references = [] := by
  -- The table grows with each declaration, so that the statement is for any table to start from.
  suffices h : ∀ (declarations : List Declaration) (table : SymbolTable), table.keys.Nodup →
      (∀ {key s}, table.get? key = some s → s.isSystem = true ∧ s.isDead = false
        ∧ s.needsUpdate = false ∧ ∀ d ∈ s.definitions, d.references = []) →
      (table.declareAll goal types declarations).keys.Nodup
        ∧ ∀ {key s}, (table.declareAll goal types declarations).get? key = some s →
          s.isSystem = true ∧ s.isDead = false ∧ s.needsUpdate = false
            ∧ ∀ d ∈ s.definitions, d.references = [] from
    h declarations {} List.nodup_nil nofun
  intro declarations
  induction declarations with
  | nil => exact fun table hnodup hdeclared => ⟨hnodup, hdeclared⟩
  | cons declaration rest ih =>
    intro table hnodup hdeclared
    refine ih _ (nodup_keys_declare hnodup) fun {key s} hget => ?_
    rw [get?_declare] at hget
    split at hget
    · cases hget
      refine ⟨rfl, rfl, rfl, fun d hd => ?_⟩
      rcases List.mem_cons.1 hd with rfl | hd
      · simp [SymbolDefinition.references]
      · have hold := (List.mem_filter.1 hd).1
        cases hget : table.get? declaration.key with
        | none =>
          rw [hget] at hold
          cases hold
        | some s =>
          rw [hget] at hold
          exact (hdeclared hget).2.2.2 d hold
    · exact hdeclared hget

end SymbolTable

end StoryCheck
