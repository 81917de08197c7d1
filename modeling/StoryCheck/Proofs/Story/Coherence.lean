import Mathlib.Data.List.Induction
import StoryCheck.Proofs.Story.Upkeep
import StoryCheck.Proofs.Symbol.Usages

/-!
# Stories in order

A story keeps what it knows about its goals in several places: the goals with their trees and tables
of calls, the symbols with their usages, and the weights. Whatever is done to a story, in whatever
phase it is, these places go on saying the same.

* **`Step`** — what can be done to a story. Each step leads from any story to another.
* **`RecordsCalls`** — lists of goals and tables of calls are those of the trees.
* **`IsInOrder`** — the invariant, with what holds once the story is ready.
* **`isCoherent_after`** — what it says about every story that comes about.
-/

namespace StoryCheck

open Syntax

/-- The table of calls of a goal: its named call sites, each with the symbol it calls. -/
def Syntax.Goal.callTable (tree : Goal) : CallTable :=
  tree.calls.map fun call => (call.signature.range.span, ⟨call.name, call.arity⟩)

/-- The table of calls that comes out of entering a goal is read off its tree and does not depend on
the symbols. -/
theorem SymbolTable.addGoal_snd (table : SymbolTable) (goal : String) (types : TypeRegistry)
    (tree : Goal) : (table.addGoal goal types tree).2 = tree.callTable := by
  rw [Goal.callTable, ← CallSite.map_call_ofGoal types tree, List.map_map]
  rfl

namespace Story

variable {story : Story} {header : SymbolTable} {types : TypeRegistry} {goal : StoryGoal}
  {name : String}

/-! ## Checks

A check writes reports on goals and touches nothing else. -/

/-- Checks the goals that pass a test. -/
def checkWhere (story : Story) (test : StoryGoal → Prop) [DecidablePred test] : Story :=
  { story with goals := story.goals.map fun goal => if test goal then story.checked goal else goal }

/-- Checking all goals passes over those of the header. -/
theorem checkAll_eq (story : Story) :
    story.checkAll = story.checkWhere fun goal => ¬ goal.isHeader = true := by
  simp only [checkAll, checkWhere, ite_not]

/-! ## Records of calls

Each goal is listed with its calls, and under each symbol stand the goals that call it. Both are
made from the tree of a goal when it is entered. -/

/-- The lists that symbols keep and the tables of calls are those of the trees. -/
structure RecordsCalls (story : Story) : Prop where
  counts : story.symbols.CountsCalls story.goals.trees
  tables : ∀ goal ∈ story.goals.goals, goal.calls = goal.tree.callTable

/-- Entering a goal records its calls. -/
theorem RecordsCalls.enter (h : story.RecordsCalls) (hbuilt : story.IsBuiltOn header types)
    (goal : StoryGoal) : (story.enter goal).RecordsCalls := by
  -- The goal that has this name goes first, so that its calls are not counted twice.
  let others :=
    if story.goals.contains goal.name then story.symbols.removeGoal goal.name else story.symbols
  have hothers : others.CountsCalls (Function.update story.goals.trees goal.name none)
      ∧ others.keys.Nodup := by
    by_cases hcontains : story.goals.contains goal.name
    · rw [show others = story.symbols.removeGoal goal.name from if_pos hcontains]
      exact ⟨h.counts.removeGoal goal.name, SymbolTable.nodup_keys_removeGoal hbuilt.holds.nodup⟩
    · rw [show others = story.symbols from if_neg hcontains,
        GoalList.update_trees_of_absent hcontains]
      exact ⟨h.counts, hbuilt.holds.nodup⟩
  obtain ⟨hcounts, hnodup⟩ := hothers
  have hadded : (others.addGoal goal.name story.types goal.tree).1.CountsCalls
      (Function.update (Function.update story.goals.trees goal.name none) goal.name
        (some goal.tree)) :=
    hcounts.addGoal (by rw [Function.update_self])
  rw [Function.update_idem] at hadded
  constructor
  · rw [show (story.enter goal).goals.trees
        = Function.update story.goals.trees goal.name (some goal.tree) from
      GoalList.trees_put story.goals _]
    exact hadded.prune (SymbolTable.nodup_keys_addGoal hnodup)
  · exact GoalList.forall_put h.tables (SymbolTable.addGoal_snd others goal.name story.types goal.tree)

/-- Dropping a goal takes its records away. -/
theorem RecordsCalls.drop (h : story.RecordsCalls) (hbuilt : story.IsBuiltOn header types)
    (name : String) : (story.drop name).RecordsCalls where
  counts := by
    rw [show (story.drop name).goals.trees = Function.update story.goals.trees name none from
      GoalList.trees_erase story.goals name]
    exact (h.counts.removeGoal name).prune (SymbolTable.nodup_keys_removeGoal hbuilt.holds.nodup)
  tables goal hmem := h.tables goal (List.mem_filter.1 hmem).1

/-- Notes on goals and resolution leave the records alone. -/
theorem RecordsCalls.annotate {other : Story} {f : StoryGoal → StoryGoal} (h : story.RecordsCalls)
    (hf : GoalList.Annotates f) (hcalls : ∀ goal, (f goal).calls = goal.calls)
    (hgoals : other.goals = story.goals.map f)
    (hentries : ∀ ledger key, other.symbols.entriesOf ledger key = story.symbols.entriesOf ledger key) :
    other.RecordsCalls where
  counts := by
    rw [hgoals, GoalList.trees_map hf]
    exact h.counts.of_entriesOf hentries
  tables goal hmem := by
    rw [hgoals] at hmem
    obtain ⟨old, hold, rfl⟩ := List.mem_map.1 hmem
    rw [hcalls, hf.tree]
    exact h.tables old hold

/-- Refreshing a story keeps the records. -/
theorem RecordsCalls.refresh (h : story.RecordsCalls) (treeHasChanged : Bool) :
    (story.refresh treeHasChanged).story.RecordsCalls := by
  let weights := (story.refresh treeHasChanged).story.weights
  refine h.annotate (annotates_rankBy weights) (fun _ => rfl) rfl fun ledger key => ?_
  -- Other weights flag symbols, which is no use of them.
  let symbols := if weights = story.weights then story.symbols else story.symbols.invalidateAll
  have hsymbols : symbols.entriesOf ledger key = story.symbols.entriesOf ledger key := by
    by_cases heq : weights = story.weights
    · rw [show symbols = story.symbols from if_pos heq]
    · rw [show symbols = story.symbols.invalidateAll from if_neg heq]
      exact SymbolTable.entriesOf_invalidateAll story.symbols key
  exact (SymbolTable.entriesOf_update symbols weights key).trans hsymbols

/-- Checks keep the records. -/
theorem RecordsCalls.checkWhere (h : story.RecordsCalls) (test : StoryGoal → Prop)
    [DecidablePred test] : (story.checkWhere test).RecordsCalls :=
  h.annotate (story.annotates_checked test) (by intro goal; split <;> rfl) rfl fun _ _ => rfl

/-! ## Ranks

A goal carries its weight, which is that of its place among the goals at the time. After every
change of the goals all are ranked anew. -/

/-- Every goal has the weight that the story gives it. -/
def IsRanked (story : Story) : Prop :=
  ∀ goal ∈ story.goals.goals, goal.weight = story.weights.of goal.name

/-- Goals that were just ranked carry their weights. -/
theorem isRanked_rankBy (story : Story) (weights : Weights) :
    { story with weights, goals := story.goals.rankBy weights }.IsRanked := by
  intro goal hmem
  obtain ⟨old, -, rfl⟩ := List.mem_map.1 hmem
  rfl

/-- A check leaves the weights. -/
theorem IsRanked.checkWhere (h : story.IsRanked) (test : StoryGoal → Prop) [DecidablePred test] :
    (story.checkWhere test).IsRanked := by
  intro goal hmem
  obtain ⟨old, hold, rfl⟩ := List.mem_map.1 hmem
  split <;> exact h old hold

/-- The weight that a goal carries is the one in the list of weights. -/
theorem IsRanked.weight_mem (h : story.IsRanked) (hweights : story.weights = story.goals.weights)
    {goal : StoryGoal} (hmem : goal ∈ story.goals.goals) :
    (goal.name, goal.weight) ∈ story.goals.weights := by
  rw [h goal hmem, hweights]
  refine GoalGraph.mem_weights ?_
  rw [GoalList.names_graph]
  exact List.mem_map.2 ⟨goal, hmem, rfl⟩

/-! ## Steps

Everything that can happen to a story is a step, and each step that fails leaves the story as it
was. Stories that come about are those that steps lead to. -/

/-- What can be done to a story. -/
inductive Step where
  /-- Another story is begun. -/
  | restart (inputs : StoryInputs)
  | loadGoal (pending : PendingGoal)
  | finish
  | update (name uri text : String) (origin : GoalOrigin)
  | updateText (name uri text : String)
  | remove (name : String)
  | check (name : String)
  | reanalyze

/-- Does a step. One that fails does nothing. -/
def step (story : Story) : Step → Story
  | .restart inputs => (story.restart inputs).toOption.getD story
  | .loadGoal pending => ((story.loadGoal pending).toOption.map (·.story)).getD story
  | .finish => story.finish.story
  | .update name uri text origin => (story.update name uri text origin).story
  | .updateText name uri text => (story.updateText name uri text).story
  | .remove name => ((story.remove? name).map (·.story)).getD story
  | .check name => story.checkGoal name
  | .reanalyze => story.reanalyze

/-- What there is after some steps from nothing. -/
def after (steps : List Step) : Story := steps.foldl step {}

/-- All parts of a story say the same. -/
structure IsInOrder (story : Story) (header : SymbolTable) (types : TypeRegistry) : Prop extends
    IsBuiltOn story header types where
  declared : header.IsDeclared
  records : story.RecordsCalls
  upToDate : story.phase = .ready → story.IsUpToDate header types
  ranked : story.phase = .ready → story.IsRanked

/-- A story without goals is in order. -/
theorem isInOrder_empty : ({} : Story).IsInOrder {} {} where
  types_eq := rfl
  names := List.nodup_nil
  read := nofun
  holds := SymbolTable.holds_header List.nodup_nil
  tidy := nofun
  declared := nofun
  records := ⟨fun ledger _ _ => by cases ledger <;> rfl, nofun⟩
  upToDate := nofun
  ranked := nofun

/-- A story that is up to date is in order. -/
theorem IsInOrder.of_upToDate (hdeclared : header.IsDeclared) (h : story.IsUpToDate header types)
    (hrecords : story.RecordsCalls) (hranked : story.IsRanked) : story.IsInOrder header types where
  toIsBuiltOn := h.toIsBuiltOn
  declared := hdeclared
  records := hrecords
  upToDate _ := h
  ranked _ := hranked

/-- A story that is being loaded is in order, with less to be said of it. -/
theorem IsInOrder.of_builtOn (hdeclared : header.IsDeclared) (h : story.IsBuiltOn header types)
    (hrecords : story.RecordsCalls) (hnot : ¬ story.isReady) : story.IsInOrder header types where
  toIsBuiltOn := h
  declared := hdeclared
  records := hrecords
  upToDate hready := absurd (by simp [isReady, hready]) hnot
  ranked hready := absurd (by simp [isReady, hready]) hnot

/-- Checks keep a story in order. -/
theorem IsInOrder.checkWhere (h : story.IsInOrder header types) (test : StoryGoal → Prop)
    [DecidablePred test] : (story.checkWhere test).IsInOrder header types where
  toIsBuiltOn := h.toIsBuiltOn.annotate (story.annotates_checked test)
  declared := h.declared
  records := h.records.checkWhere test
  upToDate hready := (h.upToDate hready).annotate (story.annotates_checked test)
  ranked hready := (h.ranked hready).checkWhere test

/-- The check of one goal keeps a story in order. -/
theorem IsInOrder.checkGoal (h : story.IsInOrder header types) (name : String) :
    (story.checkGoal name).IsInOrder header types :=
  h.checkWhere fun goal => goal.name = name

/-- The check of all goals keeps a story in order. -/
theorem IsInOrder.checkAll (h : story.IsInOrder header types) :
    story.checkAll.IsInOrder header types := by
  rw [checkAll_eq]
  exact h.checkWhere _

/-- In a loaded story a goal that was read is entered and the story refreshed. -/
theorem IsInOrder.replace (h : story.IsInOrder header types) (hready : story.phase = .ready)
    (goal : StoryGoal) (hgoal : goal.tree = (parseGoal goal.text).tree) :
    ((story.enter goal).refresh ((story.goals.get? goal.name).map (·.parents)
      != some goal.parents)).story.IsInOrder header types :=
  .of_upToDate h.declared ((h.upToDate hready).replace h.declared goal hgoal)
    ((h.records.enter h.toIsBuiltOn goal).refresh _) (isRanked_rankBy _ _)

/-- Entering a goal keeps a story in order, whether it is being loaded or ready. -/
theorem IsInOrder.update (h : story.IsInOrder header types) (name uri text : String)
    (origin : GoalOrigin) : (story.update name uri text origin).story.IsInOrder header types := by
  have hread := GoalList.tree_ofText name uri text origin
  -- A story that is being loaded is not brought up to date before it is finished.
  by_cases hready : story.isReady
  · have hreplaced := h.replace (by simpa [isReady] using hready) (.ofText name uri text origin) hread
    unfold Story.update
    rw [if_pos hready]
    exact hreplaced.checkGoal name
  · unfold Story.update
    rw [if_neg hready]
    exact .of_builtOn h.declared (h.toIsBuiltOn.enter h.declared hread)
      (h.records.enter h.toIsBuiltOn _) hready

/-- Taking a goal out keeps a story in order. -/
theorem IsInOrder.remove (h : story.IsInOrder header types) {outcome : Outcome}
    (hremove : story.remove? name = some outcome) : outcome.story.IsInOrder header types := by
  have hdropped := h.records.drop h.toIsBuiltOn name
  refine remove_induction (P := fun outcome => outcome.story.IsInOrder header types) hremove
    (fun hnot => ?_) (fun hready _ _ => ?_) fun _ outcome other houtcome => houtcome.checkGoal other
  · exact .of_builtOn h.declared (h.toIsBuiltOn.drop h.declared name) hdropped hnot
  · have hphase : story.phase = .ready := by simpa [isReady] using hready
    exact .of_upToDate h.declared ((h.upToDate hphase).leave h.declared name)
      (hdropped.refresh true) (isRanked_rankBy _ _)

/-- Finishing a load keeps a story in order. -/
theorem IsInOrder.finish (h : story.IsInOrder header types) :
    story.finish.story.IsInOrder header types := by
  by_cases hphase : story.phase = .initializing
  · -- The checks come last. They read what was resolved and only leave notes on goals.
    let weights := story.goals.weights
    let resolved : Story :=
      { story with
        phase := .ready
        weights
        goals := story.goals.rankBy weights
        symbols := (story.symbols.invalidateAll.update weights).1 }
    have hrecords : resolved.RecordsCalls :=
      h.records.annotate (annotates_rankBy weights) (fun _ => rfl) rfl
        fun _ => SymbolTable.entriesOf_resolveAll story.symbols weights
    have hranked : resolved.IsRanked := isRanked_rankBy story weights
    have hfinish : story.finish.story = resolved.checkWhere fun goal => ¬ goal.isHeader = true := by
      rw [← checkAll_eq, Story.finish, if_pos hphase]
    have hfinished := IsLoading.finish ⟨h.toIsBuiltOn, hphase⟩ h.declared
    rw [hfinish] at hfinished ⊢
    exact .of_upToDate h.declared hfinished (hrecords.checkWhere _) (hranked.checkWhere _)
  · rw [finish_of_ne hphase]
    exact h

/-- Analyzing a story again keeps it in order. -/
theorem IsInOrder.reanalyze (h : story.IsInOrder header types) :
    story.reanalyze.IsInOrder header types := by
  -- All symbols are resolved anew over the same goals, and after that the goals are checked again.
  let resolved : Story :=
    { story with symbols := (story.symbols.invalidateAll.update story.weights).1 }
  have hbuilt : resolved.IsBuiltOn header types :=
    { types_eq := h.types_eq
      names := h.names
      read := h.read
      holds := (h.holds.invalidateAll h.declared).update h.declared story.weights
      tidy := SymbolTable.IsTidy.update (SymbolTable.IsTidy.invalidateAll h.tidy) story.weights }
  have hresolved : resolved.IsInOrder header types :=
    { toIsBuiltOn := hbuilt
      declared := h.declared
      records :=
        ⟨h.records.counts.of_entriesOf fun _ =>
          SymbolTable.entriesOf_resolveAll story.symbols story.weights,
          h.records.tables⟩
      upToDate := fun hready =>
        { toIsBuiltOn := hbuilt
          ready := hready
          weights := (h.upToDate hready).weights
          settled := fun hget => SymbolTable.not_needsUpdate_update hget
          shown := h.holds.shown_invalidateAll h.declared story.weights }
      ranked := h.ranked }
  exact hresolved.checkAll

/-- A story of which only the header was read. -/
theorem exists_isInOrder_ofHeader (uri text : String) (environment : Environment) :
    ∃ header types, (ofHeader uri text environment).IsInOrder header types := by
  let types := TypeRegistry.registerAll {} (parseHeader text).tree.aliases
  let declarations := (parseHeader text).tree.declarations
  let header := SymbolTable.declareAll {} headerGoal types declarations
  obtain ⟨hheader, hloading⟩ := isLoading_ofDeclarations types environment uri declarations
    ((parseHeader text).diagnostics.map (·.inFile uri))
  have hordered : (ofHeader uri text environment).IsLoading header types
      ∧ (ofHeader uri text environment).RecordsCalls := by
    -- The declarations are no calls; the goals of the header are entered like any other.
    refine ofHeader_induction (P := fun story => story.IsLoading header types ∧ story.RecordsCalls)
      uri text environment ⟨hloading, ⟨fun ledger key name => ?_, nofun⟩⟩
      fun story title uri text reports ⟨hbuilt, hrecords⟩ => ?_
    · exact congrArg (List.count name)
        (SymbolTable.entriesOf_declareAll headerGoal types declarations key)
    · have hgoal := GoalList.tree_ofText title uri text .header
      obtain ⟨hcounts, htables⟩ := hrecords.enter hbuilt.toIsBuiltOn (.ofText title uri text .header)
      exact ⟨hbuilt.enterHeaderGoal hheader hgoal reports, ⟨hcounts, htables⟩⟩
  obtain ⟨hbuilt, hrecords⟩ := hordered
  exact ⟨header, types,
    .of_builtOn hheader hbuilt.toIsBuiltOn hrecords (by simp [isReady, hbuilt.initializing])⟩

/-- A story that was started anew is in order for the declarations and types of its header. -/
theorem exists_isInOrder_restart {started : Story} {inputs : StoryInputs}
    (hrestart : story.restart inputs = .ok started) :
    ∃ header types, started.IsInOrder header types := by
  unfold Story.restart at hrestart
  cases htext : inputs.check with
  | error reason =>
    rw [htext] at hrestart
    cases hrestart
  | ok text =>
    rw [htext] at hrestart
    cases hrestart
    exact exists_isInOrder_ofHeader inputs.header.uri text inputs.environment

/-- **A step leads from a story in order to a story in order.** Only a restart brings another
header. -/
theorem IsInOrder.step (h : story.IsInOrder header types) (step : Step) :
    ∃ header types, (story.step step).IsInOrder header types := by
  -- A step that fails leaves the story, and each other one has a lemma of its own.
  cases step with
  | restart inputs =>
    show ∃ header types, ((story.restart inputs).toOption.getD story).IsInOrder header types
    cases hrestart : story.restart inputs with
    | error reason => exact ⟨header, types, h⟩
    | ok started => exact exists_isInOrder_restart hrestart
  | loadGoal pending =>
    show ∃ header types, (((story.loadGoal pending).toOption.map (·.story)).getD story).IsInOrder
      header types
    unfold Story.loadGoal
    cases pending.source.goalText with
    | error reason => exact ⟨header, types, h⟩
    | ok text => exact ⟨header, types, h.update _ _ text _⟩
  | finish => exact ⟨header, types, h.finish⟩
  | update name uri text origin => exact ⟨header, types, h.update name uri text origin⟩
  | updateText name uri text => exact ⟨header, types, h.update name uri text _⟩
  | remove name =>
    show ∃ header types, (((story.remove? name).map (·.story)).getD story).IsInOrder header types
    cases hremove : story.remove? name with
    | none => exact ⟨header, types, h⟩
    | some outcome => exact ⟨header, types, h.remove hremove⟩
  | check name => exact ⟨header, types, h.checkGoal name⟩
  | reanalyze => exact ⟨header, types, h.reanalyze⟩

/-- Every story that comes about is in order for some header. -/
theorem exists_isInOrder_after (steps : List Step) :
    ∃ header types, (after steps).IsInOrder header types := by
  -- From the last step backwards; a step may change the header by starting anew.
  induction steps using List.reverseRecOn with
  | nil => exact ⟨{}, {}, isInOrder_empty⟩
  | append_singleton steps last ih =>
    -- The header is known from the last restart only, hence the existential in the hypothesis.
    obtain ⟨header, types, hbefore⟩ := ih
    rw [after, List.foldl_append]
    exact hbefore.step last

/-! ## What it says

The parts of a story, as they are seen from outside: goals by name, symbols by key, and the tables
that lead from one to the other. -/

/-- What the parts of a story say about each other. -/
structure IsCoherent (story : Story) : Prop where
  names : story.goals.names.Nodup
  keys : story.symbols.keys.Nodup
  /-- Usages are the call sites of the goals that are there, goal by goal. -/
  usages : ∀ key name, (story.symbols.usagesOf key).count name
    = ((story.goals.get? name).map fun goal => (goal.tree.calls.map Call.key).count key).getD 0
  /-- Tables of calls hold each call site with the symbol it calls. -/
  tables : ∀ goal ∈ story.goals.goals, goal.calls
    = goal.tree.calls.map fun call => (call.signature.range.span, ⟨call.name, call.arity⟩)
  present : ∀ goal ∈ story.goals.goals, ∀ call ∈ goal.calls, (story.symbols.get? call.2).isSome
  /-- Something uses or defines every symbol that is not declared. -/
  referred : ∀ s ∈ story.symbols.symbols, s.isSystem = false → s.usages ≠ [] ∨ s.definitions ≠ []
  settled : story.phase = .ready → ∀ s ∈ story.symbols.symbols, s.needsUpdate = false
  weights : story.phase = .ready → story.weights = story.goals.weights
  ranked : story.phase = .ready →
    ∀ goal ∈ story.goals.goals, (goal.name, goal.weight) ∈ story.goals.weights

/-- A story in order says the same in all places. -/
theorem IsInOrder.isCoherent (h : story.IsInOrder header types) : story.IsCoherent where
  names := h.names
  keys := h.holds.nodup
  usages key name := by
    rw [show story.symbols.usagesOf key = story.symbols.entriesOf .usages key from rfl,
      h.records.counts, Trees.callCount, GoalList.trees, Option.map_map]
    simp only [Function.comp_def, Ledger.filter_takes_usages]
  tables := h.records.tables
  present goal hmem call hcall := by
    rw [h.records.tables goal hmem] at hcall
    obtain ⟨site, hsite, rfl⟩ := List.mem_map.1 hcall
    have htree : story.goals.trees goal.name = some goal.tree := by
      rw [GoalList.trees, GoalList.get?_of_mem h.names hmem, Option.map_some]
    exact h.holds.present ⟨goal.tree, htree, List.mem_map.2 ⟨site, hsite, rfl⟩⟩
  referred s hmem hsystem := by
    have hreferred := h.tidy (SymbolTable.get?_of_mem h.holds.nodup hmem)
    simp only [SymbolTable.isReferred, hsystem, Bool.false_or, Bool.or_eq_true,
      Bool.not_eq_true', List.isEmpty_eq_false_iff] at hreferred
    exact hreferred.symm
  settled hready s hmem :=
    (h.upToDate hready).settled (SymbolTable.get?_of_mem h.holds.nodup hmem)
  weights hready := (h.upToDate hready).weights
  ranked hready goal hmem := (h.ranked hready).weight_mem (h.upToDate hready).weights hmem

/-- **Whatever is done to a story, its parts go on saying the same.** Goals may even have the name
that the declarations of the header are attributed to. -/
theorem isCoherent_after (steps : List Step) : (after steps).IsCoherent := by
  obtain ⟨header, types, hordered⟩ := exists_isInOrder_after steps
  exact hordered.isCoherent

end Story

end StoryCheck
