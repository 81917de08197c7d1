import Mathlib.Logic.Function.Basic
import StoryCheck.Proofs.Symbol.CallSites
import StoryCheck.Proofs.Symbol.Edits
import StoryCheck.Proofs.Symbol.Evolution

/-!
# What goals contribute to a table

However a table came about, what it says about a symbol that no header declares is put together from
the goals that are there: for each goal, the definitions that its call sites give, in their order. In
which order the goals follow each other is left open, and so is everything that resolution writes.

## The architecture

* **`contributed`** — the definitions that the call sites of a goal give a symbol.
* **`get?_filled`**, **`get?_addGoal`**, **`get?_removeGoal`** — a symbol after an edit.
* **`Gathers`** — a symbol holds what the goals contribute to it.
* **`Holds`** — a table holds a header and goals. Entering and taking out goals, pruning and updates
  preserve it (`Holds.addGoal`, `Holds.removeGoal`, `Holds.prune`, `Holds.update`).
-/

namespace StoryCheck

open Syntax

/-! ## Contributions of call sites

A call site gives the symbol it calls a definition or none, and this does not depend on the table.
So what a goal contributes to a symbol can be said without a table, and entering the goal is adding
just that. -/

/-- The definition that a call site gives its symbol, if it says something about it. -/
def CallSite.definition? (goal : String) (site : CallSite) : Option SymbolDefinition :=
  (definitionShape? site.call).map fun (kind, access) =>
    { goal
      span := site.call.signature.range.span
      start := site.call.signature.range.first
      kind, access
      parameters := site.parameters
      comment := site.comment }

namespace SymbolTable

variable {table : SymbolTable} {key : SymbolKey} {s : StorySymbol} {goal : String}
  {sites : List CallSite} {site : CallSite}

/-- The call sites of a symbol. -/
def sitesOf (sites : List CallSite) (key : SymbolKey) : List CallSite :=
  sites.filter fun site => site.key == key

/-- The definitions that the call sites of a goal give a symbol. -/
def contributed (goal : String) (sites : List CallSite) (key : SymbolKey) : List SymbolDefinition :=
  (sitesOf sites key).filterMap (CallSite.definition? goal)

/-- A definition that a goal contributes is marked with the goal. -/
theorem goal_of_contributed {d : SymbolDefinition} (hd : d ∈ contributed goal sites key) :
    d.goal = goal := by
  obtain ⟨site, -, hsite⟩ := List.mem_filterMap.1 hd
  obtain ⟨⟨kind, access⟩, -, rfl⟩ := Option.map_eq_some_iff.1 hsite
  rfl

/-- Its parameters are those of one of the call sites. -/
theorem parameters_of_contributed {d : SymbolDefinition} (hd : d ∈ contributed goal sites key) :
    ∃ site ∈ sites, site.key = key ∧ d.parameters = site.parameters := by
  obtain ⟨site, hmem, hsite⟩ := List.mem_filterMap.1 hd
  obtain ⟨⟨kind, access⟩, -, rfl⟩ := Option.map_eq_some_iff.1 hsite
  obtain ⟨hmem, hkey⟩ := List.mem_filter.1 hmem
  exact ⟨site, hmem, by simpa using hkey, rfl⟩

/-- A call site adds its definition at the end. -/
theorem definitions_addSite (hsystem : s.isSystem = false) :
    (addSite goal site s).definitions = s.definitions ++ (site.definition? goal).toList := by
  unfold addSite CallSite.definition?
  cases definitionShape? site.call with
  | none => simp
  | some shape => simp [hsystem]

/-- A symbol of the header gets no definition from a call site. -/
theorem definitions_addSite_of_isSystem (hsystem : s.isSystem = true) :
    (addSite goal site s).definitions = s.definitions := by
  unfold addSite
  cases definitionShape? site.call with
  | none => rfl
  | some shape => simp [hsystem]

/-- It is noted that the goal uses the symbol. -/
theorem usages_addSite : (addSite goal site s).usages = s.usages ++ [goal] := by
  unfold addSite
  cases definitionShape? site.call with
  | none => rfl
  | some shape =>
    dsimp only
    split <;> rfl

/-- The kind is left for later. -/
theorem kind_addSite : (addSite goal site s).kind = s.kind := by
  unfold addSite
  cases definitionShape? site.call with
  | none => rfl
  | some shape =>
    dsimp only
    split <;> rfl

/-- What call sites in a goal add to their symbol. -/
def gather (goal : String) (sites : List CallSite) (s : StorySymbol) : StorySymbol :=
  sites.foldl (fun s site => addSite goal site s) s

/-- All call sites of a goal together add to a symbol and leave its verdict. -/
theorem extends_gather (goal : String) (sites : List CallSite) (s : StorySymbol) :
    s.Extends (gather goal sites s) := by
  -- One call site after the other.
  induction sites generalizing s with
  | nil => exact .refl s
  | cons site rest ih => exact (extends_addSite goal site s).trans (ih _)

/-- The definitions are added in the order of the call sites. -/
theorem definitions_gather (goal : String) (sites : List CallSite) (hsystem : s.isSystem = false) :
    (gather goal sites s).definitions
      = s.definitions ++ sites.filterMap (CallSite.definition? goal) := by
  -- The symbol is arbitrary, for it changes with every site.
  induction sites generalizing s with
  | nil => exact (List.append_nil _).symm
  | cons site rest ih =>
    have hsystem' := (extends_addSite goal site s).isSystem.trans hsystem
    show (gather goal rest (addSite goal site s)).definitions = _
    rw [ih hsystem', definitions_addSite hsystem, List.append_assoc, List.filterMap_cons]
    cases site.definition? goal <;> rfl

/-- A symbol of the header gets none. -/
theorem definitions_gather_of_isSystem (hsystem : s.isSystem = true) :
    (gather goal sites s).definitions = s.definitions := by
  induction sites generalizing s with
  | nil => rfl
  | cons site rest ih =>
    have hsystem' := (extends_addSite goal site s).isSystem.trans hsystem
    exact (ih hsystem').trans (definitions_addSite_of_isSystem hsystem)

/-- The goal uses the symbol if it calls it at all. -/
theorem mem_usages_gather {name : String} :
    name ∈ (gather goal sites s).usages ↔ name ∈ s.usages ∨ (name = goal ∧ sites ≠ []) := by
  induction sites generalizing s with
  | nil => simp [gather]
  | cons site rest ih =>
    show name ∈ (gather goal rest (addSite goal site s)).usages ↔ _
    rw [ih, usages_addSite, List.mem_append, List.mem_singleton]
    simp only [ne_eq, reduceCtorEq, not_false_eq_true, and_true]
    tauto

/-- The kind is left for later. -/
theorem kind_gather : (gather goal sites s).kind = s.kind := by
  induction sites generalizing s with
  | nil => rfl
  | cons site rest ih => exact (ih (s := addSite goal site s)).trans kind_addSite

/-- A symbol after all call sites of a goal were entered. -/
theorem get?_filled :
    (table.filled goal sites).get? key
      = if sitesOf sites key = [] then table.get? key
        else some (gather goal (sitesOf sites key) ((table.get? key).getD (.ofKey key))) := by
  induction sites generalizing table with
  | nil => rfl
  | cons site rest ih =>
    show ((table.enter goal site).filled goal rest).get? key = _
    rw [ih, get?_enter]
    by_cases hkey : site.key = key
    · have hcons : sitesOf (site :: rest) key = site :: sitesOf rest key :=
        List.filter_cons_of_pos (by simpa using hkey)
      rw [hcons, if_pos hkey.symm, if_neg (List.cons_ne_nil _ _), hkey]
      split
      · next hnil => rw [hnil]; rfl
      · rfl
    · have hcons : sitesOf (site :: rest) key = sitesOf rest key :=
        List.filter_cons_of_neg (by simpa using hkey)
      rw [hcons, if_neg (Ne.symm hkey)]

end SymbolTable

/-! ## Revised symbols

Both edits end in the same way: a symbol whose definitions changed takes the kind on which they agree
now, and a symbol that is reached from one of these is taken back. -/

namespace StorySymbol

variable {s : StorySymbol} {touched reached : Bool}

/-- The kind on which all definitions agree. -/
def statedKind (s : StorySymbol) : SymbolKind :=
  if s.hasKindConflict then .unknown else (s.definitions.head?.map (·.kind)).getD .unknown

/-- The symbol at the end of an edit. -/
def revised (touched reached : Bool) (s : StorySymbol) : StorySymbol :=
  let s := if touched then s.refreshKind else s
  if reached then s.invalidate else s

/-- Symbols of the header are not revised. -/
theorem revised_of_isSystem (hsystem : s.isSystem = true) : s.revised touched reached = s := by
  have hrefresh : s.refreshKind = s := by simp [refreshKind, hsystem]
  have hinvalidate : s.invalidate = s := by simp [invalidate, hsystem]
  unfold revised
  cases touched <;> cases reached <;> simp [hrefresh, hinvalidate]

/-- Others are in their kind, their verdict and their parameters only. -/
theorem revised_eq (hsystem : s.isSystem = false) :
    s.revised touched reached
      = { s with
          kind := if touched then s.statedKind else s.kind
          isDead := if reached then false else s.isDead
          needsUpdate := if reached then true else s.needsUpdate
          canonical := if reached then none else s.canonical } := by
  obtain ⟨⟩ := s
  subst hsystem
  cases touched <;> cases reached <;> rfl

/-- The kind on which definitions agree depends on the definitions. -/
theorem statedKind_congr {t : StorySymbol} (h : t.definitions = s.definitions) :
    t.statedKind = s.statedKind := by
  unfold statedKind hasKindConflict
  rw [h]

/-- A symbol that is not touched has to have the kind already. -/
theorem kind_revised (hsystem : s.isSystem = false)
    (huntouched : touched = false → s.kind = s.statedKind) :
    (s.revised touched reached).kind = (s.revised touched reached).statedKind := by
  have hstated : (s.revised touched reached).statedKind = s.statedKind :=
    statedKind_congr (by rw [revised_eq hsystem])
  rw [hstated, revised_eq hsystem]
  cases touched with
  | true => rfl
  | false => exact huntouched rfl

/-- The key of a symbol stays when it is revised. -/
@[simp] theorem key_revised (s : StorySymbol) : (s.revised touched reached).key = s.key := by
  unfold revised
  cases touched <;> cases reached <;> simp

/-- The definitions of a symbol stay when it is revised. -/
theorem definitions_revised : (s.revised touched reached).definitions = s.definitions := by
  cases hsystem : s.isSystem with
  | true => rw [revised_of_isSystem hsystem]
  | false => rw [revised_eq hsystem]

/-- The parameters of a symbol stay when it is revised. -/
theorem parameters_revised : (s.revised touched reached).parameters = s.parameters := by
  cases hsystem : s.isSystem with
  | true => rw [revised_of_isSystem hsystem]
  | false => rw [revised_eq hsystem]

/-- Revising a symbol does not change whether it is one of the header. -/
@[simp] theorem isSystem_revised (s : StorySymbol) :
    (s.revised touched reached).isSystem = s.isSystem := by
  cases hsystem : s.isSystem with
  | true => rw [revised_of_isSystem hsystem, hsystem]
  | false => rw [revised_eq hsystem, ← hsystem]

end StorySymbol

namespace SymbolTable

variable {table : SymbolTable} {key : SymbolKey} {s : StorySymbol} {goal : String}
  {types : TypeRegistry} {tree : Goal}

/-- Taking the kinds anew and taking back, symbol by symbol. -/
theorem get?_revised {changed : List SymbolKey} :
    ((table.refresh changed).invalidateFrom changed).get? key
      = (table.get? key).map (StorySymbol.revised (decide (key ∈ changed))
          (decide (key ∈ (table.refresh changed).dependentsOf changed))) := by
  rw [get?_invalidateFrom, get?_refresh, Option.map_map]
  congr 1
  funext s
  unfold StorySymbol.revised
  simp

/-- The symbols that are taken back when a goal is entered. -/
def reachedByAdding (table : SymbolTable) (goal : String) (types : TypeRegistry) (tree : Goal) :
    List SymbolKey :=
  let changed := table.definedKeys (CallSite.ofGoal types tree)
  ((table.filled goal (CallSite.ofGoal types tree)).refresh changed).dependentsOf changed

/-- A symbol after a goal was entered: gathered, then revised. -/
theorem get?_addGoal :
    (table.addGoal goal types tree).1.get? key
      = ((table.filled goal (CallSite.ofGoal types tree)).get? key).map
          (StorySymbol.revised (decide (key ∈ table.definedKeys (CallSite.ofGoal types tree)))
            (decide (key ∈ table.reachedByAdding goal types tree))) :=
  get?_revised

/-- The symbols that are taken back when a goal is taken out. -/
def reachedByRemoving (table : SymbolTable) (goal : String) : List SymbolKey :=
  ((table.map (strip goal)).refresh (table.definedBy goal)).dependentsOf (table.definedBy goal)

/-- A symbol after a goal was taken out: stripped, then revised. -/
theorem get?_removeGoal :
    (table.removeGoal goal).get? key
      = (table.get? key).map fun s =>
          (strip goal s).revised (decide (key ∈ table.definedBy goal))
            (decide (key ∈ table.reachedByRemoving goal)) := by
  rw [removeGoal_eq, get?_revised, get?_map (f := strip goal) fun _ => rfl, Option.map_map]
  rfl

/-- A symbol has a new definition just if its call sites give one, unless it is declared. -/
theorem mem_definedKeys (goal : String) (sites : List CallSite) (hinferred : ∀ s, table.get? key = some s →
    s.isSystem = false) : key ∈ table.definedKeys sites ↔ contributed goal sites key ≠ [] := by
  -- No symbol of the key is declared, so that each site with a shape defines it.
  have hsystem : ((table.get? key).any fun s => s.isSystem) = false := by
    cases hget : table.get? key with
    | none => rfl
    | some s => exact hinferred s hget
  constructor
  · intro hkey hnil
    obtain ⟨site, hsite, rfl⟩ := List.mem_map.1 hkey
    obtain ⟨hsite, hdefining⟩ := List.mem_filter.1 hsite
    unfold isDefining at hdefining
    obtain ⟨shape, hshape⟩ := Option.isSome_iff_exists.1 (Bool.and_eq_true_iff.1 hdefining).1
    have hsites : site ∈ sitesOf sites site.key :=
      List.mem_filter.2 ⟨hsite, beq_self_eq_true _⟩
    have hnone := List.filterMap_eq_nil_iff.1 hnil site hsites
    rw [CallSite.definition?, hshape] at hnone
    cases hnone
  · intro hne
    obtain ⟨d, hd⟩ := List.exists_mem_of_ne_nil _ hne
    obtain ⟨site, hsite, hdefinition⟩ := List.mem_filterMap.1 hd
    obtain ⟨hsite, hkey⟩ := List.mem_filter.1 hsite
    obtain ⟨shape, hshape, -⟩ := Option.map_eq_some_iff.1 hdefinition
    have hkey : site.key = key := by simpa using hkey
    refine List.mem_map.2 ⟨site, List.mem_filter.2 ⟨hsite, ?_⟩, hkey⟩
    rw [isDefining, hshape, hkey, hsystem]
    rfl

end SymbolTable

/-! ## Symbols that gather contributions

What a symbol has from each goal is what the goal alone would have given it. Entering a goal adds a
part and taking one out takes that part away. -/

/-- Goals by name. -/
abbrev Trees := String → Option Goal

namespace Trees

/-- What the goal of a name contributes to a symbol. -/
def contributed (trees : Trees) (types : TypeRegistry) (name : String) (key : SymbolKey) :
    List SymbolDefinition :=
  match trees name with
  | none => []
  | some tree => SymbolTable.contributed name (CallSite.ofGoal types tree) key

/-- A symbol is called by the goal of a name. -/
def Calls (trees : Trees) (name : String) (key : SymbolKey) : Prop :=
  ∃ tree, trees name = some tree ∧ key ∈ tree.calls.map Call.key

end Trees

/-- A symbol holds what goals contribute to it, those of each goal in their order. -/
structure StorySymbol.Gathers (s : StorySymbol) (types : TypeRegistry) (trees : Trees)
    (key : SymbolKey) : Prop where
  inferred : s.isSystem = false
  kind : s.kind = s.statedKind
  definitions : ∀ name,
    (s.definitions.filter fun d => d.goal == name) = trees.contributed types name key
  usages : ∀ name, name ∈ s.usages ↔ trees.Calls name key
  length : s.parameters.length = key.arity

namespace StorySymbol.Gathers

variable {s t : StorySymbol} {types : TypeRegistry} {trees : Trees} {key : SymbolKey}
  {goal : String} {tree : Goal}

/-- A definition of a symbol is contributed by the goal it is marked with. -/
theorem mem_contributed (h : s.Gathers types trees key) {d : SymbolDefinition}
    (hd : d ∈ s.definitions) : d ∈ trees.contributed types d.goal key := by
  rw [← h.definitions]
  exact List.mem_filter.2 ⟨hd, beq_self_eq_true _⟩

/-- A definition comes from a call site of its goal. -/
theorem exists_site (h : s.Gathers types trees key) {d : SymbolDefinition}
    (hd : d ∈ s.definitions) : ∃ tree, trees d.goal = some tree
      ∧ ∃ site ∈ CallSite.ofGoal types tree, site.key = key ∧ d.parameters = site.parameters := by
  have hmem := h.mem_contributed hd
  unfold Trees.contributed at hmem
  split at hmem
  · cases hmem
  · next tree htree => exact ⟨tree, htree, SymbolTable.parameters_of_contributed hmem⟩

/-- A symbol has as many parameters as its key says. -/
theorem hasLength (h : s.Gathers types trees key) : s.HasLength key.arity := by
  refine ⟨h.length, fun d hd => ?_⟩
  obtain ⟨tree, -, site, hsite, rfl, hparameters⟩ := h.exists_site hd
  rw [hparameters]
  exact CallSite.length_parameters_ofGoal hsite

/-- A symbol that no goal calls. -/
theorem ofKey (hnone : ∀ name, ¬ trees.Calls name key) :
    (StorySymbol.ofKey key).Gathers types trees key where
  inferred := rfl
  kind := rfl
  definitions name := by
    unfold Trees.contributed
    split
    · rfl
    · next tree htree =>
      refine Eq.symm (List.filterMap_eq_nil_iff.2 fun site hsite => ?_)
      obtain ⟨hsite, hkey⟩ := List.mem_filter.1 hsite
      refine absurd ⟨tree, htree, ?_⟩ (hnone name)
      rw [← CallSite.map_key_ofGoal types tree]
      exact List.mem_map.2 ⟨site, hsite, by simpa using hkey⟩
  usages name := iff_of_false List.not_mem_nil (hnone name)
  length := by simp [StorySymbol.ofKey]

/-- A goal that was not there adds its contribution. -/
theorem add (h : s.Gathers types trees key) (hnew : trees goal = none)
    (hinferred : t.isSystem = false) (hkind : t.kind = t.statedKind)
    (hdefinitions : t.definitions
      = s.definitions ++ SymbolTable.contributed goal (CallSite.ofGoal types tree) key)
    (husages : ∀ name, name ∈ t.usages
      ↔ name ∈ s.usages ∨ (name = goal ∧ key ∈ tree.calls.map Call.key))
    (hlength : t.parameters = s.parameters) :
    t.Gathers types (Function.update trees goal (some tree)) key where
  inferred := hinferred
  kind := hkind
  -- What the goal contributes is listed under its own name, behind all that was there.
  definitions name := by
    rw [hdefinitions, List.filter_append, h.definitions]
    unfold Trees.contributed
    by_cases hname : name = goal
    · subst hname
      rw [hnew, Function.update_self]
      refine List.filter_eq_self.2 fun d hd => ?_
      simpa using SymbolTable.goal_of_contributed hd
    · rw [Function.update_of_ne hname]
      refine (congrArg _ (List.filter_eq_nil_iff.2 fun d hd => ?_)).trans (List.append_nil _)
      rw [SymbolTable.goal_of_contributed hd]
      simpa using Ne.symm hname
  usages name := by
    rw [husages, h.usages]
    unfold Trees.Calls
    by_cases hname : name = goal
    · subst hname
      simp [hnew]
    · simp [hname]
  length := (congrArg List.length hlength).trans h.length

/-- A goal that goes takes its contribution with it. -/
theorem remove (h : s.Gathers types trees key) (hinferred : t.isSystem = false)
    (hkind : t.kind = t.statedKind)
    (hdefinitions : t.definitions = s.definitions.filter fun d => d.goal != goal)
    (husages : t.usages = s.usages.filter fun g => g != goal)
    (hlength : t.parameters = s.parameters) :
    t.Gathers types (Function.update trees goal none) key where
  inferred := hinferred
  kind := hkind
  -- What is left of the goal is nothing, and of every other goal all.
  definitions name := by
    rw [hdefinitions, List.filter_filter]
    unfold Trees.contributed
    by_cases hname : name = goal
    · subst hname
      rw [Function.update_self]
      exact List.filter_eq_nil_iff.2 fun d _ => by simp
    · rw [Function.update_of_ne hname]
      refine Eq.trans (List.filter_congr fun d _ => ?_) (h.definitions name)
      by_cases hgoal : d.goal = name
      · simp [hgoal, hname]
      · simp [hgoal]
  usages name := by
    rw [husages, List.mem_filter, h.usages]
    unfold Trees.Calls
    by_cases hname : name = goal
    · subst hname
      simp
    · simp [hname]
  length := (congrArg List.length hlength).trans h.length

end StorySymbol.Gathers

/-! ## Tables that hold goals

Declared symbols take nothing from goals but the record of their use; all others are made by goals
alone. -/

namespace SymbolTable

variable {table header : SymbolTable} {types : TypeRegistry} {trees : Trees} {key : SymbolKey}
  {s t : StorySymbol} {goal : String} {tree : Goal}

/-- All symbols are declared and settled, as those of a header are. -/
def IsDeclared (header : SymbolTable) : Prop :=
  ∀ {key s}, header.get? key = some s →
    s.isSystem = true ∧ s.isDead = false ∧ s.needsUpdate = false

/-- A table holds the symbols of a header and what goals contribute. -/
structure Holds (table header : SymbolTable) (types : TypeRegistry) (trees : Trees) : Prop where
  nodup : table.keys.Nodup
  declared : ∀ {key s}, header.get? key = some s →
    ∃ t, table.get? key = some t ∧ t.kind = s.kind ∧ t.verdict = s.verdict
  gathers : ∀ {key s}, header.get? key = none → table.get? key = some s →
    s.Gathers types trees key
  present : ∀ {name key}, trees.Calls name key → (table.get? key).isSome

/-- A symbol the header declares is in the table, with the kind and the verdict it has from there. -/
theorem Holds.exists_declared (h : table.Holds header types trees) (hheader : header.IsDeclared)
    (hget : header.get? key = some s) :
    ∃ t, table.get? key = some t ∧ t.isSystem = true ∧ t.kind = s.kind ∧ t.verdict = s.verdict := by
  obtain ⟨t, ht, hkind, hverdict⟩ := h.declared hget
  have hsystem := (StorySymbol.isSystem_eq_of_verdict hverdict).trans (hheader hget).1
  exact ⟨t, ht, hsystem, hkind, hverdict⟩

/-- A table of declarations alone holds settled symbols of the header. -/
theorem isDeclared_declareAll (name : String) (types : TypeRegistry)
    (declarations : List Declaration) : (declareAll {} name types declarations).IsDeclared := by
  intro key s hget
  obtain ⟨hsystem, hdead, hsettled, -⟩ := (declareAll_spec name types declarations).2 hget
  exact ⟨hsystem, hdead, hsettled⟩

/-- A declared symbol as the header has it. -/
theorem Holds.declared_before (h : table.Holds header types trees) (hheader : header.IsDeclared)
    (hget : table.get? key = some s) (hsystem : s.isSystem = true) :
    s.isDead = false ∧ s.needsUpdate = false := by
  cases hdeclared : header.get? key with
  | none => exact absurd hsystem (by simp [(h.gathers hdeclared hget).inferred])
  | some u =>
    obtain ⟨t, ht, -, hverdict⟩ := h.declared hdeclared
    rw [hget, Option.some.injEq] at ht
    subst ht
    obtain ⟨-, hdead, hsettled⟩ := hheader hdeclared
    exact ⟨(StorySymbol.isDead_eq_of_verdict hverdict).trans hdead,
      (StorySymbol.needsUpdate_eq_of_verdict hverdict).trans hsettled⟩

/-- Something refers to every symbol. -/
def IsTidy (table : SymbolTable) : Prop :=
  ∀ {key s}, table.get? key = some s → isReferred s = true

/-- The header refers to all that it declares. -/
theorem IsDeclared.isTidy (h : header.IsDeclared) : header.IsTidy := by
  intro key s hget
  simp [isReferred, (h hget).1]

/-- A tidy table has just the symbols that are declared or called. -/
theorem Holds.isSome_iff (h : table.Holds header types trees) (htidy : table.IsTidy) :
    (table.get? key).isSome ↔ (header.get? key).isSome ∨ ∃ name, trees.Calls name key := by
  constructor
  · intro hsome
    obtain ⟨s, hs⟩ := Option.isSome_iff_exists.1 hsome
    cases hheader : header.get? key with
    | some _ => exact Or.inl rfl
    | none =>
      have hgathers := h.gathers hheader hs
      have hreferred := htidy hs
      unfold isReferred at hreferred
      rw [hgathers.inferred, Bool.false_or, Bool.or_eq_true] at hreferred
      refine Or.inr ?_
      -- A tidy symbol is defined or used by some goal, which then calls it.
      rcases hreferred with hdefinitions | husages
      · obtain ⟨d, hd⟩ := List.exists_mem_of_ne_nil s.definitions (by simpa using hdefinitions)
        obtain ⟨tree, htree, site, hsite, hkey, -⟩ := hgathers.exists_site hd
        refine ⟨d.goal, tree, htree, ?_⟩
        rw [← CallSite.map_key_ofGoal types tree, ← hkey]
        exact List.mem_map.2 ⟨site, hsite, rfl⟩
      · obtain ⟨name, hname⟩ := List.exists_mem_of_ne_nil s.usages (by simpa using husages)
        exact ⟨name, (hgathers.usages name).1 hname⟩
  · rintro (hheader | ⟨name, hcalls⟩)
    · obtain ⟨s, hs⟩ := Option.isSome_iff_exists.1 hheader
      obtain ⟨t, ht, -⟩ := h.declared hs
      rw [ht]
      rfl
    · exact h.present hcalls

/-- A header by itself holds no goals. -/
theorem holds_header (hnodup : header.keys.Nodup) : header.Holds header types fun _ => none where
  nodup := hnodup
  declared hget := ⟨_, hget, rfl, rfl⟩
  gathers hnone hget := by
    rw [hnone] at hget
    cases hget
  present := by
    rintro name key ⟨tree, htree, -⟩
    cases htree

/-! ### Adding a goal

Entering a goal goes through its call sites, then revises the symbols that it defines, and takes
back what depends on these. Only the first of the three changes what goals have contributed. -/

/-- No key comes twice by call sites. -/
theorem nodup_keys_filled {sites : List CallSite} (hnodup : table.keys.Nodup) :
    (table.filled goal sites).keys.Nodup := by
  induction sites generalizing table with
  | nil => exact hnodup
  | cons site rest ih => exact ih (nodup_keys_enter hnodup)

/-- No key comes twice by a whole goal. -/
theorem nodup_keys_addGoal (hnodup : table.keys.Nodup) :
    (table.addGoal goal types tree).1.keys.Nodup := by
  rw [addGoal_fst, keys_invalidateFrom, keys_refresh]
  exact nodup_keys_filled hnodup

/-- A symbol that was filled is what it was before with the call sites of the goal. -/
theorem eq_gather_of_filled {sites : List CallSite}
    (hget : (table.filled goal sites).get? key = some s) :
    s = gather goal (sitesOf sites key) ((table.get? key).getD (.ofKey key)) := by
  rw [get?_filled] at hget
  split at hget
  · next hnone =>
    rw [hnone, hget]
    rfl
  · exact (Option.some.inj hget).symm

/-- A symbol before a goal was entered; one that was not there is made. -/
theorem exists_before_addGoal (hget : (table.addGoal goal types tree).1.get? key = some s) :
    ∃ touched reached, s = (gather goal (sitesOf (CallSite.ofGoal types tree) key)
        ((table.get? key).getD (.ofKey key))).revised touched reached
      ∧ (touched = false → key ∉ table.definedKeys (CallSite.ofGoal types tree)) := by
  rw [get?_addGoal] at hget
  obtain ⟨v, hv, rfl⟩ := Option.map_eq_some_iff.1 hget
  obtain rfl := eq_gather_of_filled hv
  exact ⟨_, _, rfl, decide_eq_false_iff_not.1⟩

/-- A goal has call sites for a key just if it calls it. -/
theorem sitesOf_ofGoal_ne_nil :
    sitesOf (CallSite.ofGoal types tree) key ≠ [] ↔ key ∈ tree.calls.map Call.key := by
  rw [← CallSite.map_key_ofGoal types tree, List.mem_map]
  constructor
  · intro hne
    obtain ⟨site, hsite⟩ := List.exists_mem_of_ne_nil _ hne
    obtain ⟨hsite, hkey⟩ := List.mem_filter.1 hsite
    exact ⟨site, hsite, by simpa using hkey⟩
  · rintro ⟨site, hsite, rfl⟩
    exact List.ne_nil_of_mem (List.mem_filter.2 ⟨hsite, beq_self_eq_true _⟩)

/-- **Entering a goal that was not there adds what it contributes.** -/
theorem Holds.addGoal (h : table.Holds header types trees) (hheader : header.IsDeclared)
    (hnew : trees goal = none) :
    (table.addGoal goal types tree).1.Holds header types
      (Function.update trees goal (some tree)) where
  nodup := nodup_keys_addGoal h.nodup
  declared {key s} hget := by
    obtain ⟨t, ht, hdeclared, hkind, hverdict⟩ := h.exists_declared hheader hget
    have hextends := extends_gather goal (sitesOf (CallSite.ofGoal types tree) key) t
    have hsystem := hextends.isSystem.trans hdeclared
    refine ⟨_, ?_, kind_gather.trans hkind, hextends.verdict.trans hverdict⟩
    rw [get?_addGoal, get?_filled, ht]
    split
    · next hnil =>
      rw [hnil] at hsystem ⊢
      exact congrArg some (StorySymbol.revised_of_isSystem hsystem)
    · exact congrArg some (StorySymbol.revised_of_isSystem hsystem)
  gathers {key s} hnone hget := by
    rw [get?_addGoal] at hget
    obtain ⟨v, hv, rfl⟩ := Option.map_eq_some_iff.1 hget
    obtain rfl := eq_gather_of_filled hv
    have hbase : ((table.get? key).getD (.ofKey key)).Gathers types trees key := by
      cases hget : table.get? key with
      | some s => exact h.gathers hnone hget
      | none =>
        -- Nobody called it so far, for then it would be there.
        refine .ofKey fun name hcalls => ?_
        have hsome := h.present hcalls
        rw [hget] at hsome
        cases hsome
    have hextends := extends_gather goal (sitesOf (CallSite.ofGoal types tree) key)
      ((table.get? key).getD (.ofKey key))
    have hinferred := hextends.isSystem.trans hbase.inferred
    have hdefinitions := definitions_gather goal (sitesOf (CallSite.ofGoal types tree) key)
      hbase.inferred
    have hkey := mem_definedKeys goal (CallSite.ofGoal types tree)
      fun s hs => (h.gathers hnone hs).inferred
    refine hbase.add hnew ((StorySymbol.isSystem_revised _).trans hinferred)
      (StorySymbol.kind_revised hinferred fun huntouched => ?_) ?_ (fun name => ?_) ?_
    · -- Without a new definition the kind is what it was.
      have hcontributed : contributed goal (CallSite.ofGoal types tree) key = [] :=
        not_not.1 fun hne => (decide_eq_false_iff_not.1 huntouched) (hkey.2 hne)
      rw [kind_gather, hbase.kind]
      refine (StorySymbol.statedKind_congr ?_).symm
      rw [hdefinitions]
      exact (congrArg _ hcontributed).trans (List.append_nil _)
    · rw [StorySymbol.revised_eq hinferred]
      exact hdefinitions
    · rw [StorySymbol.revised_eq hinferred]
      show name ∈ (gather goal _ _).usages ↔ _
      rw [mem_usages_gather, sitesOf_ofGoal_ne_nil]
    · rw [StorySymbol.revised_eq hinferred]
      exact hextends.parameters
  present {name key} hcalls := by
    rw [get?_addGoal, Option.isSome_map, get?_filled]
    obtain ⟨own, hown, hkey⟩ := hcalls
    by_cases hname : name = goal
    · subst hname
      rw [Function.update_self, Option.some.injEq] at hown
      subst hown
      rw [if_neg (sitesOf_ofGoal_ne_nil.2 hkey)]
      rfl
    · rw [Function.update_of_ne hname] at hown
      split
      · exact h.present ⟨own, hown, hkey⟩
      · rfl

/-- Whether anybody refers to a symbol is not revised. -/
theorem isReferred_revised {touched reached : Bool} :
    isReferred (s.revised touched reached) = isReferred s := by
  cases hsystem : s.isSystem with
  | true => rw [StorySymbol.revised_of_isSystem hsystem]
  | false => rw [StorySymbol.revised_eq hsystem, isReferred, isReferred]

/-- Entering a goal leaves no symbol nobody refers to. -/
theorem IsTidy.addGoal (h : table.IsTidy) : (table.addGoal goal types tree).1.IsTidy := by
  intro key s hget
  rw [get?_addGoal] at hget
  obtain ⟨v, hv, rfl⟩ := Option.map_eq_some_iff.1 hget
  rw [isReferred_revised]
  by_cases hsites : sitesOf (CallSite.ofGoal types tree) key = []
  · rw [get?_filled, if_pos hsites] at hv
    exact h hv
  · obtain rfl := eq_gather_of_filled hv
    have hmem : goal ∈ (gather goal (sitesOf (CallSite.ofGoal types tree) key)
        ((table.get? key).getD (.ofKey key))).usages :=
      mem_usages_gather.2 (Or.inr ⟨rfl, hsites⟩)
    unfold isReferred
    rw [List.isEmpty_eq_false_iff_exists_mem.2 ⟨goal, hmem⟩]
    simp

/-! ### Taking out a goal

Taking out a goal takes its definitions from every symbol. What it leaves may have nobody who refers
to it; such symbols go when the table is pruned. -/

/-- No key comes twice by taking out a goal. -/
theorem nodup_keys_removeGoal (hnodup : table.keys.Nodup) : (table.removeGoal goal).keys.Nodup := by
  rw [removeGoal_eq, keys_invalidateFrom, keys_refresh, keys_map (f := strip goal) fun _ => rfl]
  exact hnodup

/-- **Taking out a goal takes out what it contributed.** -/
theorem Holds.removeGoal (h : table.Holds header types trees) (hheader : header.IsDeclared) :
    (table.removeGoal goal).Holds header types (Function.update trees goal none) where
  nodup := nodup_keys_removeGoal h.nodup
  declared {key s} hget := by
    obtain ⟨t, ht, hsystem, hkind, hverdict⟩ := h.exists_declared hheader hget
    refine ⟨strip goal t, ?_, hkind, hverdict⟩
    rw [get?_removeGoal, ht, Option.map_some]
    exact congrArg some (StorySymbol.revised_of_isSystem hsystem)
  gathers {key s} hnone hget := by
    rw [get?_removeGoal] at hget
    obtain ⟨v, hv, rfl⟩ := Option.map_eq_some_iff.1 hget
    have hbase := h.gathers hnone hv
    have hinferred : (strip goal v).isSystem = false := hbase.inferred
    refine hbase.remove ((StorySymbol.isSystem_revised _).trans hinferred)
      (StorySymbol.kind_revised hinferred fun huntouched => ?_) ?_ ?_ ?_
    · have hdefinitions := definitions_strip hv (decide_eq_false_iff_not.1 huntouched)
      exact hbase.kind.trans (StorySymbol.statedKind_congr hdefinitions).symm
    all_goals rw [StorySymbol.revised_eq hinferred]; rfl
  present {name key} hcalls := by
    obtain ⟨own, hown, hkey⟩ := hcalls
    -- A call that is left stands in another goal.
    have hname : name ≠ goal := by
      rintro rfl
      rw [Function.update_self] at hown
      cases hown
    rw [Function.update_of_ne hname] at hown
    rw [get?_removeGoal, Option.isSome_map]
    exact h.present ⟨own, hown, hkey⟩

/-! ### What leaves the goals alone

Pruning, updates and taking back everything do not change which goals a table holds. The last two
rewrite verdicts and flags of symbols, symbol by symbol. -/

/-- After pruning there is no symbol nobody refers to. -/
theorem IsTidy.prune (table : SymbolTable) (hnodup : table.keys.Nodup) : table.prune.IsTidy := by
  intro key s hget
  rw [get?_prune hnodup] at hget
  exact (Option.filter_eq_some_iff.1 hget).2

/-- Pruning leaves the goals alone. -/
theorem Holds.prune (h : table.Holds header types trees) (hheader : header.IsDeclared) :
    table.prune.Holds header types trees where
  nodup := nodup_keys_prune h.nodup
  declared {key s} hget := by
    obtain ⟨t, ht, hsystem, hkind, hverdict⟩ := h.exists_declared hheader hget
    refine ⟨t, ?_, hkind, hverdict⟩
    rw [get?_prune h.nodup, ht]
    simp [isReferred, hsystem]
  gathers {key s} hnone hget := by
    rw [get?_prune h.nodup] at hget
    exact h.gathers hnone (Option.filter_eq_some_iff.1 hget).1
  -- A symbol that a goal calls is referred to and stays.
  present {name key} hcalls := by
    obtain ⟨s, hs⟩ := Option.isSome_iff_exists.1 (h.present hcalls)
    have hreferred : isReferred s = true := by
      cases hheader' : header.get? key with
      | some t =>
        obtain ⟨t', ht', hsystem, -⟩ := h.exists_declared hheader hheader'
        rw [hs, Option.some.injEq] at ht'
        simp [isReferred, ht' ▸ hsystem]
      | none =>
        have hmem := ((h.gathers hheader' hs).usages name).2 hcalls
        unfold isReferred
        rw [List.isEmpty_eq_false_iff_exists_mem.2 ⟨name, hmem⟩]
        simp
    rw [get?_prune h.nodup, hs]
    simp [hreferred]

/-- What resolution and taking back may make of a symbol. -/
structure Rewrites (s t : StorySymbol) : Prop where
  evidence : t.evidence = s.evidence
  declared : s.isSystem = true → s.isDead = false → s.needsUpdate = false → t = s
  length : s.HasLength s.key.arity → t.HasLength s.key.arity

/-- Resolving and taking back leave alone what goals say. -/
theorem Holds.rewrite {after : SymbolTable} (h : table.Holds header types trees)
    (hheader : header.IsDeclared) (hkeys : after.keys = table.keys)
    (hsymbol : ∀ {key s}, table.get? key = some s → ∃ t, after.get? key = some t ∧ Rewrites s t) :
    after.Holds header types trees where
  nodup := hkeys ▸ h.nodup
  -- A declared symbol is neither dead nor flagged, and no rewrite touches such a one.
  declared {key s} hget := by
    obtain ⟨t, ht, hsystem, hkind, hverdict⟩ := h.exists_declared hheader hget
    obtain ⟨u, hu, hrewrites⟩ := hsymbol ht
    have hdead := (StorySymbol.isDead_eq_of_verdict hverdict).trans (hheader hget).2.1
    have hsettled := (StorySymbol.needsUpdate_eq_of_verdict hverdict).trans (hheader hget).2.2
    rw [hrewrites.declared hsystem hdead hsettled] at hu
    exact ⟨t, hu, hkind, hverdict⟩
  -- For an inferred one the evidence stays, and evidence is all that is said of the goals.
  gathers {key u} hnone hget := by
    have hkey : key ∈ table.keys := hkeys ▸ mem_keys_of_get? hget
    obtain ⟨s, hs⟩ := Option.isSome_iff_exists.1 (get?_isSome_iff.2 hkey)
    obtain ⟨t, ht, hrewrites⟩ := hsymbol hs
    rw [hget, Option.some.injEq] at ht
    subst ht
    have hgathers := h.gathers hnone hs
    have hevidence := hrewrites.evidence
    have hdefinitions := StorySymbol.definitions_eq_of_evidence hevidence
    refine ⟨(StorySymbol.isSystem_eq_of_evidence hevidence).trans hgathers.inferred, ?_, ?_, ?_, ?_⟩
    · rw [StorySymbol.statedKind_congr hdefinitions, ← hgathers.kind]
      show u.evidence.kind = s.evidence.kind
      rw [hevidence]
    · rw [hdefinitions]
      exact hgathers.definitions
    · have husages : u.usages = s.usages := by
        show u.evidence.usages = s.evidence.usages
        rw [hevidence]
      rw [husages]
      exact hgathers.usages
    · have hlength := hgathers.hasLength
      rw [← key_of_get? hs] at hlength ⊢
      exact (hrewrites.length hlength).parameters
  present hcalls := by
    have hkey := get?_isSome_iff.1 (h.present hcalls)
    exact get?_isSome_iff.2 (hkeys ▸ hkey)

/-- An update leaves the keys in place. -/
theorem keys_update (table : SymbolTable) (weights : Weights) :
    (table.update weights).1.keys = table.keys :=
  (keys_map (f := fun s => { s with needsUpdate := false }) fun _ => rfl).trans
    (table.evolves_sweeps weights).keys

/-- It rewrites each symbol. -/
theorem rewrites_update (weights : Weights) {key : SymbolKey} {s : StorySymbol}
    (hget : table.get? key = some s) :
    ∃ t, (table.update weights).1.get? key = some t ∧ Rewrites s t := by
  obtain ⟨t, ht, hst⟩ := (table.evolves_sweeps weights).symbol hget
  refine ⟨{ t with needsUpdate := false }, ?_, hst.evidence_eq, fun _ _ hsettled => ?_,
    fun hlength => ⟨(hst.hasLength hlength).parameters, (hst.hasLength hlength).definitions⟩⟩
  · rw [get?_update, ht]
    rfl
  · rw [hst.eq_of_unflagged hsettled, ← hsettled]

/-- So does taking back everything. -/
theorem rewrites_invalidateAll {key : SymbolKey} {s : StorySymbol}
    (hget : table.get? key = some s) :
    ∃ t, table.invalidateAll.get? key = some t ∧ Rewrites s t := by
  refine ⟨s.invalidate, ?_, s.evidence_invalidate, fun hsystem _ _ => invalidate_of_isSystem hsystem,
    fun hlength => ?_⟩
  · rw [get?_invalidateAll, hget]
    rfl
  · unfold StorySymbol.invalidate
    split
    · exact hlength
    · exact ⟨hlength.parameters, hlength.definitions⟩

/-- A table holds the same goals after an update. -/
theorem Holds.update (h : table.Holds header types trees) (hheader : header.IsDeclared)
    (weights : Weights) : (table.update weights).1.Holds header types trees :=
  h.rewrite hheader (keys_update table weights) (rewrites_update weights)

/-- A table holds the same goals after everything was taken back. -/
theorem Holds.invalidateAll (h : table.Holds header types trees) (hheader : header.IsDeclared) :
    table.invalidateAll.Holds header types trees :=
  h.rewrite hheader (keys_invalidateAll table) rewrites_invalidateAll

/-- Taking back leaves the usages of symbols, so no symbol is left without. -/
theorem IsTidy.invalidateAll (h : table.IsTidy) : table.invalidateAll.IsTidy := by
  intro key s hget
  rw [get?_invalidateAll] at hget
  obtain ⟨t, ht, rfl⟩ := Option.map_eq_some_iff.1 hget
  have hreferred : isReferred t = true := h ht
  show isReferred t.invalidate.evidence = true
  rw [t.evidence_invalidate]
  exact hreferred

/-- An update leaves the usages of symbols, so no symbol is left without. -/
theorem IsTidy.update (h : table.IsTidy) (weights : Weights) :
    (table.update weights).1.IsTidy := by
  intro key s hget
  rw [get?_update] at hget
  obtain ⟨t, ht, rfl⟩ := Option.map_eq_some_iff.1 hget
  obtain ⟨u, hu, hevolves⟩ := (table.evolves_sweeps weights).exists_before ht
  have hreferred : isReferred u = true := h hu
  show isReferred t.evidence = true
  rw [hevolves.evidence_eq]
  exact hreferred

end SymbolTable

end StoryCheck
