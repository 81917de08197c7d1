import StoryCheck.Proofs.Goals.Listing
import StoryCheck.Proofs.Symbol.Upkeep
import StoryCheck.Story

/-!
# Keeping a story up to date

A loaded story takes edits: a goal gets a new text, or it goes. Each edit refreshes the weights if
the tree of goals has changed and resolves what it flagged. This module follows what a story is
built on through loading and through edits.

## The architecture

* **`IsBuiltOn`** — the symbols of a story hold the goals of the story and nothing else. It does not
  matter whether the story is loaded yet.
* **`IsUpToDate`** — the story is loaded, its weights are those of its goals, no symbol is flagged
  and every symbol that settles shows its judgement.
* **`IsBuiltOn.enter`**, **`IsBuiltOn.drop`** — what an edit does before it is refreshed.
* **`IsBuiltOn.refresh`** — refreshing brings a story up to date.
* **`isUpToDate_load`**, **`IsUpToDate.edit`** — a story that was loaded is up to date, and edits keep
  it so.
-/

namespace StoryCheck

open Syntax

namespace Story

variable {story : Story} {header : SymbolTable} {types : TypeRegistry} {goal : StoryGoal}

/-! ## What a story is built on

Two statements about a story: that its symbols are those of the header and of its goals, which holds
in the midst of a step too, and that all that was computed from them is as recent as the goals. -/

/-- The symbols of a story are those of a header and of its goals. -/
structure IsBuiltOn (story : Story) (header : SymbolTable) (types : TypeRegistry) : Prop where
  types_eq : story.types = types
  names : story.goals.names.Nodup
  read : story.goals.IsRead
  holds : story.symbols.Holds header types story.goals.trees
  tidy : story.symbols.IsTidy

/-- A loaded story in which everything is as recent as its goals. -/
structure IsUpToDate (story : Story) (header : SymbolTable) (types : TypeRegistry) : Prop extends
    IsBuiltOn story header types where
  ready : story.phase = .ready
  weights : story.weights = story.goals.weights
  settled : ∀ {key s}, story.symbols.get? key = some s → s.needsUpdate = false
  shown : story.symbols.Shown story.weights

/-- Notes on goals change nothing on which symbols are built. -/
theorem IsBuiltOn.annotate {f : StoryGoal → StoryGoal} (h : story.IsBuiltOn header types)
    (hf : GoalList.Annotates f) : { story with goals := story.goals.map f }.IsBuiltOn header types where
  types_eq := h.types_eq
  names := by
    rw [GoalList.names_map hf.name]
    exact h.names
  read := h.read.map hf
  holds := by
    rw [GoalList.trees_map hf]
    exact h.holds
  tidy := h.tidy

theorem weights_annotate {list : GoalList} {f : StoryGoal → StoryGoal} (hnames : list.names.Nodup)
    (hf : GoalList.Annotates f) : (list.map f).weights = list.weights := by
  refine GoalList.weights_of_parents ?_ hnames fun name => ?_
  · rw [GoalList.names_map hf.name]
    exact hnames
  · rw [GoalList.trees_map hf]

theorem IsUpToDate.annotate {f : StoryGoal → StoryGoal} (h : story.IsUpToDate header types)
    (hf : GoalList.Annotates f) :
    { story with goals := story.goals.map f }.IsUpToDate header types where
  toIsBuiltOn := h.toIsBuiltOn.annotate hf
  ready := h.ready
  weights := h.weights.trans (weights_annotate h.names hf).symm
  settled := h.settled
  shown := h.shown

theorem annotates_rankBy (weights : Weights) : GoalList.Annotates (·.rankBy weights) :=
  ⟨fun _ => rfl, fun _ => rfl, fun _ => rfl, fun _ => rfl⟩

theorem annotates_checked (story : Story) (test : StoryGoal → Prop) [DecidablePred test] :
    GoalList.Annotates fun goal => if test goal then story.checked goal else goal := by
  refine ⟨?_, ?_, ?_, ?_⟩
  all_goals
    intro goal
    split <;> rfl

/-! ## Changes to the goals

A change to the goals goes hand in hand with one to the symbols, and it flags all symbols that it
concerns. What it leaves alone is as it was. -/

/-- **Entering a goal that was read puts it in place of the one of its name.** -/
theorem IsBuiltOn.enter (h : story.IsBuiltOn header types) (hheader : header.IsDeclared)
    (hgoal : goal.tree = (parseGoal goal.text).tree) :
    (story.enter goal).IsBuiltOn header types := by
  obtain ⟨rfl, hnames, hread, hholds, htidy⟩ := h
  -- The goal is entered in three steps: what it said before is removed, what it says now is added,
  -- and what nothing refers to any more is pruned.
  let others :=
    if story.goals.contains goal.name then story.symbols.removeGoal goal.name else story.symbols
  have hothers : others.Holds header story.types
      (Function.update story.goals.trees goal.name none) := by
    by_cases hcontains : story.goals.contains goal.name
    · rw [show others = story.symbols.removeGoal goal.name from if_pos hcontains]
      exact hholds.removeGoal hheader
    · rw [show others = story.symbols from if_neg hcontains,
        GoalList.update_trees_of_absent hcontains]
      exact hholds
  have hadded : (others.addGoal goal.name story.types goal.tree).1.Holds header story.types
      (Function.update (Function.update story.goals.trees goal.name none) goal.name
        (some goal.tree)) :=
    hothers.addGoal hheader (by rw [Function.update_self])
  rw [Function.update_idem] at hadded
  exact
    { types_eq := rfl
      names := GoalList.nodup_names_put hnames
      read := hread.put hgoal
      holds := by
        rw [show (story.enter goal).goals.trees
            = Function.update story.goals.trees goal.name (some goal.tree) from
          GoalList.trees_put story.goals _]
        exact hadded.prune hheader
      tidy := SymbolTable.IsTidy.prune _ hadded.nodup }

/-- The symbols after entering a goal go on from those before. -/
theorem IsBuiltOn.continues_enter {before : SymbolTable} (h : story.IsBuiltOn header types)
    (hheader : header.IsDeclared) (hbefore : before.Continues story.symbols []) (goal : StoryGoal) :
    before.Continues (story.enter goal).symbols [] := by
  obtain ⟨rfl, -, -, hholds, -⟩ := h
  unfold Story.enter
  split
  · have hremoved : (story.symbols.removeGoal goal.name).Holds header story.types _ :=
      hholds.removeGoal hheader
    exact ((hbefore.removeGoal goal.name).addGoal hremoved hheader goal.name goal.tree).prune
      (SymbolTable.nodup_keys_addGoal hremoved.nodup)
  · exact (hbefore.addGoal hholds hheader goal.name goal.tree).prune
      (SymbolTable.nodup_keys_addGoal hholds.nodup)

/-- The story without a goal, before it is refreshed. -/
def drop (story : Story) (name : String) : Story :=
  { story with
    goals := story.goals.erase name
    symbols := (story.symbols.removeGoal name).prune }

/-- What becomes of a story when a goal is taken out: it is refreshed, the goal is taken leave of, and
some goals are checked. -/
theorem remove_induction {P : Outcome → Prop} {name : String} {outcome : Outcome}
    (hremove : story.remove? name = some outcome)
    (hwaiting : ¬ story.isReady → P { story := story.drop name })
    (hgone : story.isReady → ∀ goal, story.goals.get? name = some goal →
      let refreshed := (story.drop name).refresh true
      P { refreshed with
          events := refreshed.events ++
            if goal.isHeader then [] else [.diagnostics name goal.uri []] })
    (hcheck : story.isReady → ∀ outcome other, P outcome →
      P (outcome.andThen (checkAndAnnounce other))) :
    P outcome := by
  unfold Story.remove? at hremove
  obtain ⟨goal, hget, rfl⟩ := Option.map_eq_some_iff.1 hremove
  have hchecks (hready : story.isReady) (others : List StoryGoal) (outcome : Outcome)
      (houtcome : P outcome) :
      P (others.foldl (fun outcome other => outcome.andThen (checkAndAnnounce other.name))
        outcome) := by
    induction others generalizing outcome with
    | nil => exact houtcome
    | cons other rest ih => exact ih _ (hcheck hready outcome other.name houtcome)
  dsimp only
  split
  · next hready => exact hchecks hready _ _ (hgone hready goal hget)
  · next hnot => exact hwaiting hnot

theorem IsBuiltOn.drop (h : story.IsBuiltOn header types) (hheader : header.IsDeclared)
    (name : String) : (story.drop name).IsBuiltOn header types where
  types_eq := h.types_eq
  names := GoalList.nodup_names_erase h.names
  read := h.read.erase
  holds := by
    rw [show (story.drop name).goals.trees = Function.update story.goals.trees name none from
      GoalList.trees_erase story.goals name]
    exact (h.holds.removeGoal hheader).prune hheader
  tidy := SymbolTable.IsTidy.prune _ (SymbolTable.nodup_keys_removeGoal h.holds.nodup)

theorem IsBuiltOn.continues_drop {before : SymbolTable} (h : story.IsBuiltOn header types)
    (hbefore : before.Continues story.symbols []) (name : String) :
    before.Continues (story.drop name).symbols [] :=
  (hbefore.removeGoal name).prune (SymbolTable.nodup_keys_removeGoal h.holds.nodup)

/-! ## Refreshing

Weights and verdicts are computed anew when the parents of goals have changed, and verdicts alone if
they have not. -/

/-- **A story is up to date once its goals are weighed and its symbols resolved**, if these then show
their judgements. -/
theorem IsBuiltOn.resolve {resolved : Story} {symbols : SymbolTable}
    (h : story.IsBuiltOn header types) (hheader : header.IsDeclared)
    (htypes : resolved.types = types) (hready : resolved.phase = .ready)
    (hweights : resolved.weights = story.goals.weights)
    (hgoals : resolved.goals = story.goals.rankBy resolved.weights)
    (hsymbols : resolved.symbols = (symbols.update resolved.weights).1)
    (hholds : symbols.Holds header types story.goals.trees) (htidy : symbols.IsTidy)
    (hshown : resolved.symbols.Shown resolved.weights) : resolved.IsUpToDate header types := by
  -- Ranking writes weights on the goals and leaves their names, texts and trees.
  have hrank := annotates_rankBy resolved.weights
  exact
    { types_eq := htypes
      names := by
        rw [hgoals, show (story.goals.rankBy resolved.weights).names = story.goals.names from
          GoalList.names_map hrank.name]
        exact h.names
      read := by
        rw [hgoals]
        exact h.read.map hrank
      holds := by
        rw [hsymbols, hgoals, show (story.goals.rankBy resolved.weights).trees = story.goals.trees from
          GoalList.trees_map hrank]
        exact hholds.update hheader resolved.weights
      tidy := by
        rw [hsymbols]
        exact htidy.update resolved.weights
      ready := hready
      weights := by
        rw [hgoals, show (story.goals.rankBy resolved.weights).weights = story.goals.weights from
          weights_annotate h.names hrank]
        exact hweights
      settled := by
        rw [hsymbols]
        exact fun hget => SymbolTable.not_needsUpdate_update hget
      shown := hshown }

/-- **Refreshing brings a story up to date** whose symbols go on from those of an earlier story. If
the tree of goals has changed the weights may move, and then every symbol is resolved anew. -/
theorem IsBuiltOn.refresh {before : SymbolTable} {treeHasChanged : Bool}
    (h : story.IsBuiltOn header types) (hheader : header.IsDeclared) (hready : story.phase = .ready)
    (hbefore : before.Continues story.symbols []) (hshown : before.Shown story.weights)
    (hweights : treeHasChanged = false → story.weights = story.goals.weights) :
    (story.refresh treeHasChanged).story.IsUpToDate header types := by
  let weights := if treeHasChanged then story.goals.weights else story.weights
  have hweights_eq : weights = story.goals.weights := by
    cases htree : treeHasChanged with
    | true => simp [weights, htree]
    | false =>
      rw [← hweights htree]
      simp [weights, htree]
  let symbols := if weights = story.weights then story.symbols else story.symbols.invalidateAll
  have hsymbols : symbols.Holds header types story.goals.trees ∧ symbols.IsTidy
      ∧ (symbols.update weights).1.Shown weights := by
    by_cases heq : weights = story.weights
    · -- The weights stay, so what was settled shows its judgement still.
      rw [show symbols = story.symbols from if_pos heq]
      refine ⟨h.holds, h.tidy, ?_⟩
      rw [heq]
      exact hbefore.shown_update h.holds hheader hshown
    · rw [show symbols = story.symbols.invalidateAll from if_neg heq]
      exact ⟨h.holds.invalidateAll hheader, SymbolTable.IsTidy.invalidateAll h.tidy,
        h.holds.shown_invalidateAll hheader weights⟩
  obtain ⟨hholds, htidy, hresolved⟩ := hsymbols
  exact h.resolve hheader h.types_eq hready hweights_eq rfl rfl hholds htidy hresolved

theorem IsUpToDate.checkGoal (h : story.IsUpToDate header types) (name : String) :
    (story.checkGoal name).IsUpToDate header types :=
  h.annotate (story.annotates_checked fun goal => goal.name = name)

/-- A goal that is put in place of one with the same parents leaves the weights as they are. -/
theorem weights_put {list : GoalList} (hnames : list.names.Nodup)
    (hparents : (list.get? goal.name).map (·.parents) = some goal.parents) :
    (list.put goal).weights = list.weights := by
  refine GoalList.weights_of_parents (GoalList.nodup_names_put hnames) hnames fun name => ?_
  rw [GoalList.trees_put]
  by_cases heq : name = goal.name
  · rw [heq, Function.update_self, GoalList.trees, Option.map_map]
    exact hparents.symm
  · rw [Function.update_of_ne heq]

/-- A goal that was read is entered, and the story is refreshed if its parents are new. -/
theorem IsUpToDate.replace (h : story.IsUpToDate header types) (hheader : header.IsDeclared)
    (goal : StoryGoal) (hgoal : goal.tree = (parseGoal goal.text).tree) :
    ((story.enter goal).refresh ((story.goals.get? goal.name).map (·.parents)
      != some goal.parents)).story.IsUpToDate header types := by
  have hentered := h.toIsBuiltOn.enter hheader hgoal
  have hcontinues := h.toIsBuiltOn.continues_enter hheader (.refl h.settled) goal
  refine hentered.refresh hheader h.ready hcontinues h.shown fun hsame => ?_
  have hparents : (story.goals.get? goal.name).map (·.parents) = some goal.parents := by
    simpa using hsame
  refine h.weights.trans (weights_put h.names ?_).symm
  exact hparents

/-- A new text keeps a story up to date. -/
theorem IsUpToDate.update (h : story.IsUpToDate header types) (hheader : header.IsDeclared)
    (name uri text : String) (origin : GoalOrigin) :
    (story.update name uri text origin).story.IsUpToDate header types := by
  have hready : story.isReady = true := by simp [isReady, h.ready]
  have hreplaced := h.replace hheader (.ofText name uri text origin)
    (GoalList.tree_ofText name uri text origin)
  unfold Story.update
  rw [if_pos hready]
  exact hreplaced.checkGoal name

/-- A goal that goes leaves the story up to date as soon as it is refreshed. -/
theorem IsUpToDate.leave (h : story.IsUpToDate header types) (hheader : header.IsDeclared)
    (name : String) : ((story.drop name).refresh true).story.IsUpToDate header types :=
  (h.toIsBuiltOn.drop hheader name).refresh hheader h.ready
    (h.toIsBuiltOn.continues_drop (.refl h.settled) name) h.shown nofun

/-- Taking out a goal keeps a story up to date. -/
theorem IsUpToDate.remove (h : story.IsUpToDate header types) (hheader : header.IsDeclared)
    {name : String} {outcome : Outcome} (hremove : story.remove? name = some outcome) :
    outcome.story.IsUpToDate header types := by
  have hready : story.isReady = true := by simp [isReady, h.ready]
  exact remove_induction (P := fun outcome => outcome.story.IsUpToDate header types) hremove
    (fun hwaiting => absurd hready hwaiting) (fun _ _ _ => h.leave hheader name)
    fun _ outcome other houtcome => houtcome.checkGoal other

/-! ## Edits

The edits of a loaded story, each of which keeps it up to date. The induction over a list of edits
is made here, once for all that is said about edited stories. -/

/-- An edit of a story. -/
inductive Edit where
  /-- A goal gets a new text, or comes up with one. -/
  | update (name uri text : String)
  /-- A goal goes. -/
  | remove (name : String)
deriving DecidableEq, Repr

/-- The goal that an edit is about. -/
def Edit.name : Edit → String
  | update name _ _ | remove name => name

/-- Makes an edit. Taking out a goal that is not there does nothing. -/
def edit (story : Story) : Edit → Story
  | .update name uri text => (story.updateText name uri text).story
  | .remove name => ((story.remove? name).map (·.story)).getD story

/-- Makes edits one after the other. -/
def editAll (story : Story) (edits : List Edit) : Story := edits.foldl edit story

theorem IsUpToDate.edit (h : story.IsUpToDate header types) (hheader : header.IsDeclared)
    (edit : Edit) : (story.edit edit).IsUpToDate header types := by
  cases edit with
  | update name uri text => exact h.update hheader name uri text _
  | remove name =>
    show (((story.remove? name).map (·.story)).getD story).IsUpToDate header types
    cases hremove : story.remove? name with
    | none => exact h
    | some outcome => exact h.remove hheader hremove

/-- **Edits keep a story up to date.** -/
theorem IsUpToDate.editAll (h : story.IsUpToDate header types) (hheader : header.IsDeclared)
    (edits : List Edit) : (story.editAll edits).IsUpToDate header types := by
  induction edits generalizing story with
  | nil => exact h
  | cons edit rest ih => exact ih (h.edit hheader edit)

/-! ## Loading

A story that is being loaded takes in goals and computes nothing. It is brought up to date when it
is finished. -/

/-- A story that is being loaded. -/
structure IsLoading (story : Story) (header : SymbolTable) (types : TypeRegistry) : Prop extends
    IsBuiltOn story header types where
  initializing : story.phase = .initializing

theorem IsLoading.enter (h : story.IsLoading header types) (hheader : header.IsDeclared)
    (hgoal : goal.tree = (parseGoal goal.text).tree) : (story.enter goal).IsLoading header types :=
  ⟨h.toIsBuiltOn.enter hheader hgoal, h.initializing⟩

/-- While a story is being loaded, a text is entered and no more. -/
theorem IsLoading.update_eq (h : story.IsLoading header types) (name uri text : String)
    (origin : GoalOrigin) :
    (story.update name uri text origin).story = story.enter (.ofText name uri text origin) := by
  have hready : ¬ story.isReady = true := by simp [isReady, h.initializing]
  unfold Story.update
  rw [if_neg hready]

/-- A story of which only the header was read, before the goals of the header are entered. -/
def ofDeclarations (types : TypeRegistry) (environment : Environment) (uri : String)
    (declarations : List Declaration) (reports : List Diagnostic) : Story :=
  { phase := .initializing
    symbols := SymbolTable.declareAll {} headerGoal types declarations
    types, environment
    headerUri := uri
    headerReports := reports }

theorem enterHeaderGoals_induction {P : Story → Prop} (texts : List (String × String × SourceMap))
    (henter : ∀ story title uri text reports, P story →
      P { story.enter (.ofText title uri text .header) with headerReports := reports })
    (hstory : P story) :
    P (texts.foldl (fun story (title, text, map) => story.enterHeaderGoal title text map) story) := by
  induction texts generalizing story with
  | nil => exact hstory
  | cons first rest ih =>
    obtain ⟨title, text, map⟩ := first
    exact ih (henter story title _ text _ hstory)

/-- A header is its declarations and the goals that it brings. -/
theorem ofHeader_induction {P : Story → Prop} (uri text : String) (environment : Environment)
    (hbare : P (ofDeclarations (TypeRegistry.registerAll {} (parseHeader text).tree.aliases)
      environment uri (parseHeader text).tree.declarations
      ((parseHeader text).diagnostics.map (·.inFile uri))))
    (henter : ∀ story title uri text reports, P story →
      P { story.enter (.ofText title uri text .header) with headerReports := reports }) :
    P (ofHeader uri text environment) :=
  enterHeaderGoals_induction _ henter hbare

theorem IsLoading.enterHeaderGoal (h : story.IsLoading header types) (hheader : header.IsDeclared)
    (hgoal : goal.tree = (parseGoal goal.text).tree) (reports : List Diagnostic) :
    { story.enter goal with headerReports := reports }.IsLoading header types := by
  obtain ⟨⟨htypes, hnames, hread, hholds, htidy⟩, hinitializing⟩ := h.enter hheader hgoal
  exact ⟨⟨htypes, hnames, hread, hholds, htidy⟩, hinitializing⟩

theorem isLoading_ofDeclarations (types : TypeRegistry) (environment : Environment) (uri : String)
    (declarations : List Declaration) (reports : List Diagnostic) :
    (SymbolTable.declareAll {} headerGoal types declarations).IsDeclared
      ∧ (ofDeclarations types environment uri declarations reports).IsLoading
        (SymbolTable.declareAll {} headerGoal types declarations) types := by
  have hheader : (SymbolTable.declareAll {} headerGoal types declarations).IsDeclared :=
    SymbolTable.isDeclared_declareAll headerGoal types declarations
  exact ⟨hheader, ⟨rfl, List.nodup_nil, nofun,
    SymbolTable.holds_header (SymbolTable.declareAll_spec headerGoal types declarations).1,
    hheader.isTidy⟩, rfl⟩

/-- The header declares symbols and brings goals of its own. -/
theorem isLoading_ofHeader (uri text : String) (environment : Environment) :
    ∃ header types, header.IsDeclared ∧ (ofHeader uri text environment).IsLoading header types := by
  let types := TypeRegistry.registerAll {} (parseHeader text).tree.aliases
  let declarations := (parseHeader text).tree.declarations
  let header := SymbolTable.declareAll {} headerGoal types declarations
  obtain ⟨hheader, hloading⟩ := isLoading_ofDeclarations types environment uri declarations
    ((parseHeader text).diagnostics.map (·.inFile uri))
  refine ⟨header, types, hheader, ofHeader_induction (P := fun story => story.IsLoading header types)
    uri text environment hloading fun story title uri text reports h => ?_⟩
  exact h.enterHeaderGoal hheader (GoalList.tree_ofText title uri text .header) reports

/-- Nothing of an earlier story stays. -/
theorem restart_eq_start (story : Story) (inputs : StoryInputs) :
    story.restart inputs = start inputs := rfl

theorem isLoading_start {inputs : StoryInputs} (hstart : start inputs = .ok story) :
    ∃ header types, header.IsDeclared ∧ story.IsLoading header types := by
  unfold Story.start Story.restart at hstart
  cases htext : inputs.check with
  | error reason =>
    rw [htext] at hstart
    cases hstart
  | ok text =>
    rw [htext] at hstart
    cases hstart
    exact isLoading_ofHeader inputs.header.uri text inputs.environment

/-- Loading one goal after the other. -/
theorem loadGoals_induction {P : Story → Prop} {pendings : List PendingGoal} {loaded : Story}
    (hstep : ∀ {story pending outcome}, pending ∈ pendings → P story →
      loadGoal story pending = .ok outcome → P outcome.story) (hstory : P story)
    (hload : pendings.foldlM (fun story pending => (loadGoal story pending).map (·.story)) story
      = .ok loaded) : P loaded := by
  induction pendings generalizing story with
  | nil =>
    cases hload
    exact hstory
  | cons pending rest ih =>
    rw [List.foldlM_cons] at hload
    cases hfirst : loadGoal story pending with
    | error reason =>
      rw [hfirst] at hload
      cases hload
    | ok outcome =>
      rw [hfirst] at hload
      exact ih (fun hmem => hstep (List.mem_cons_of_mem _ hmem))
        (hstep List.mem_cons_self hstory hfirst) hload

theorem IsLoading.loadGoal (h : story.IsLoading header types) (hheader : header.IsDeclared)
    {pending : PendingGoal} {outcome : Outcome} (hload : story.loadGoal pending = .ok outcome) :
    outcome.story.IsLoading header types := by
  unfold Story.loadGoal at hload
  cases htext : pending.source.goalText with
  | error reason =>
    rw [htext] at hload
    cases hload
  | ok text =>
    rw [htext] at hload
    cases hload
    rw [h.update_eq]
    exact h.enter hheader (GoalList.tree_ofText _ _ _ _)

theorem IsLoading.loadGoals (h : story.IsLoading header types) (hheader : header.IsDeclared)
    {pendings : List PendingGoal} {loaded : Story}
    (hload : pendings.foldlM
      (fun story pending => (Story.loadGoal story pending).map (·.story)) story = .ok loaded) : loaded.IsLoading header types :=
  loadGoals_induction (P := fun story => story.IsLoading header types)
    (fun _ h hload => h.loadGoal hheader hload) h hload

theorem finish_of_ne (hphase : story.phase ≠ .initializing) : story.finish = { story } := by
  rw [Story.finish, if_neg hphase]

/-- **Ending the loading brings a story up to date.** -/
theorem IsLoading.finish (h : story.IsLoading header types) (hheader : header.IsDeclared) :
    story.finish.story.IsUpToDate header types := by
  let resolved : Story :=
    { story with
      phase := .ready
      weights := story.goals.weights
      goals := story.goals.rankBy story.goals.weights
      symbols := (story.symbols.invalidateAll.update story.goals.weights).1 }
  have hresolved : resolved.IsUpToDate header types :=
    h.resolve hheader h.types_eq rfl rfl rfl rfl (h.holds.invalidateAll hheader)
      (SymbolTable.IsTidy.invalidateAll h.tidy) (h.holds.shown_invalidateAll hheader _)
  have hchecked : GoalList.Annotates fun goal =>
      if goal.isHeader then goal else resolved.checked goal := by
    refine ⟨?_, ?_, ?_, ?_⟩
    all_goals
      intro goal
      split <;> rfl
  unfold Story.finish
  rw [if_pos h.initializing]
  exact hresolved.annotate hchecked

/-- How a story is loaded. -/
theorem load_eq_ok {inputs : StoryInputs} : load inputs = .ok story ↔
    ∃ started entered, start inputs = .ok started
      ∧ inputs.pendingGoals.foldlM (fun story pending => (loadGoal story pending).map (·.story))
        started = .ok entered
      ∧ entered.finish.story = story := by
  unfold Story.load
  cases hstart : start inputs with
  | error reason => simp [bind, Except.bind]
  | ok started =>
    cases hentered : inputs.pendingGoals.foldlM
        (fun story pending => (loadGoal story pending).map (·.story)) started with
    | error reason => simp [bind, Except.bind, hentered]
    | ok entered => simp [bind, Except.bind, pure, Except.pure, hentered]

/-- **A story that was loaded is up to date.** -/
theorem isUpToDate_load {inputs : StoryInputs} {started : Story} (hheader : header.IsDeclared)
    (hstart : start inputs = .ok started) (hstarted : started.IsLoading header types)
    (hload : load inputs = .ok story) : story.IsUpToDate header types := by
  obtain ⟨started', entered, hstart', hentered, rfl⟩ := load_eq_ok.1 hload
  rw [hstart] at hstart'
  cases hstart'
  exact (hstarted.loadGoals hheader hentered).finish hheader

end Story

end StoryCheck
