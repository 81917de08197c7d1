import StoryCheck.Check
import StoryCheck.Story.Source
import StoryCheck.Symbol.Resolve
import StoryCheck.Syntax.HeaderGoal
/-!
# Stories

A story is the goals of a project with the symbols they make up and the reports on them. It is
loaded in two stages. While it is *initializing*, goals are read and their call sites entered, and
nothing is resolved or checked. Once it is *ready*, every change resolves what it touched and
checks the goals it concerns, and the story announces what became of them.

Goals that were made from the header have no text of their own. They contribute symbols, but they
are not checked, and nothing is announced about them.
-/

namespace StoryCheck

/-- How far a story is. -/
inductive StoryPhase where
  | empty | initializing | ready
deriving DecidableEq, Repr, Inhabited

/-- What a story announces. -/
inductive StoryEvent where
  /-- The story is loaded and checked. -/
  | ready (goals : Nat)
  /-- Goals came or went, or a goal has other parents. -/
  | treeChanged
  /-- All that there is to report about a goal now. -/
  | diagnostics (goal uri : String) (reports : List Diagnostic)
  /-- Something could not be loaded. -/
  | error (message : String)
deriving DecidableEq, Repr, Inhabited

/-- The goals of a project with their symbols and reports. -/
structure Story where
  phase : StoryPhase := .empty
  goals : GoalList := {}
  symbols : SymbolTable := {}
  types : TypeRegistry := {}
  environment : Environment := {}
  weights : Weights := []
  headerUri : String := ""
  headerReports : List Diagnostic := []
deriving DecidableEq, Repr, Inhabited

/-- A story after a step, with what was announced in the course of it. -/
structure Outcome where
  story : Story
  events : List StoryEvent := []
deriving DecidableEq, Repr, Inhabited

/-- One step after another. -/
def Outcome.andThen (outcome : Outcome) (step : Story → Outcome) : Outcome :=
  let next := step outcome.story
  { next with events := outcome.events ++ next.events }

namespace Story

/-- The goal that the declarations of the header are attributed to. -/
def headerGoal : String := "<header>"

/-- Whether the story is loaded. -/
def isReady (story : Story) : Bool := story.phase == .ready

/-! ## Checking -/

/-- What the checks of a goal look at. -/
def checkContext (story : Story) (goal : StoryGoal) : CheckContext :=
  { goal
    goalNames := story.goals.names
    symbols := story.symbols
    types := story.types
    environment := story.environment }

/-- A goal with the reports of a new check. -/
def checked (story : Story) (goal : StoryGoal) : StoryGoal :=
  { goal with checkReports := (story.checkContext goal).runAll }

/-- Checks a goal. -/
def checkGoal (story : Story) (name : String) : Story :=
  { story with goals := story.goals.modify name story.checked }

/-- Checks all goals but those of the header. -/
def checkAll (story : Story) : Story :=
  { story with
    goals := story.goals.map fun goal => if goal.isHeader then goal else story.checked goal }

/-- Announces what there is to report about a goal. -/
def announce (story : Story) (name : String) : List StoryEvent :=
  match story.goals.get? name with
  | some goal => if goal.isHeader then [] else [.diagnostics name goal.uri goal.diagnostics]
  | none => []

/-- Checks a goal and announces what there is to report about it. -/
def checkAndAnnounce (name : String) (story : Story) : Outcome :=
  let story := story.checkGoal name
  { story, events := story.announce name }

/-! ## Changes -/

/-- Brings weights and symbols up to date. If the tree of goals has changed, the goals are weighed
anew, and if that moves any of them, every symbol is resolved anew. -/
def refresh (story : Story) (treeHasChanged : Bool) : Outcome :=
  let weights := if treeHasChanged then story.goals.weights else story.weights
  let symbols := if weights = story.weights then story.symbols else story.symbols.invalidateAll
  { story :=
      { story with
        weights
        goals := story.goals.rankBy weights
        symbols := (symbols.update weights).1 }
    events := if treeHasChanged then [.treeChanged] else [] }

/-- Puts a goal in place of the one of that name, or at the end, and enters its call sites. -/
def enter (story : Story) (goal : StoryGoal) : Story :=
  let others :=
    if story.goals.contains goal.name then story.symbols.removeGoal goal.name else story.symbols
  let (symbols, calls) := others.addGoal goal.name story.types goal.tree
  { story with goals := story.goals.put { goal with calls }, symbols := symbols.prune }

/-- Reads a text as the goal of a name and address. -/
def update (story : Story) (name uri text : String) (origin : GoalOrigin) : Outcome :=
  let goal := StoryGoal.ofText name uri text origin
  let treeHasChanged := (story.goals.get? name).map (·.parents) != some goal.parents
  let entered := story.enter goal
  if story.isReady then (entered.refresh treeHasChanged).andThen (checkAndAnnounce name)
  else { story := entered }

/-- Reads a new text for a goal, which stays where it comes from. -/
def updateText (story : Story) (name uri text : String) : Outcome :=
  story.update name uri text (((story.goals.get? name).map (·.origin)).getD .local)

/-- Loads a goal from its source. -/
def loadGoal (story : Story) (pending : PendingGoal) : Except StoryError Outcome :=
  pending.source.goalText.map fun text =>
    story.update pending.source.name pending.source.uri text pending.origin

/-! ### Removal -/

/-- The symbols of a goal that change when the goal goes, which declared symbols do not. -/
def touchedBy (symbols : SymbolTable) (goal : StoryGoal) : List SymbolKey :=
  (goal.calls.map (·.2)).filter fun key => !(symbols.get? key).any (·.isSystem)

/-- Whether a goal is to be checked again when another one is gone: it names that one as its
parent or calls one of its symbols. -/
def isAffectedBy (removed : String) (touched : List SymbolKey) (goal : StoryGoal) : Bool :=
  goal.parents.contains removed || goal.calls.any fun (_, key) => touched.contains key

/-- Takes out a goal with everything it contributed; nothing if there is no such goal. -/
def remove? (story : Story) (name : String) : Option Outcome :=
  (story.goals.get? name).map fun goal =>
    let rest :=
      { story with
        goals := story.goals.erase name
        symbols := (story.symbols.removeGoal name).prune }
    if story.isReady then
      let refreshed := rest.refresh true
      let farewell := if goal.isHeader then [] else [.diagnostics name goal.uri []]
      let touched := touchedBy refreshed.story.symbols goal
      let affected := refreshed.story.goals.ownGoals.filter (isAffectedBy name touched)
      affected.foldl (fun outcome other => outcome.andThen (checkAndAnnounce other.name))
        { refreshed with events := refreshed.events ++ farewell }
    else
      { story := rest }

/-! ## Loading -/

/-- Ends the loading of a story: all symbols are resolved and all goals checked. -/
def finish (story : Story) : Outcome :=
  if story.phase = .initializing then
    let weights := story.goals.weights
    let resolved :=
      { story with
        phase := .ready
        weights
        goals := story.goals.rankBy weights
        symbols := (story.symbols.invalidateAll.update weights).1 }
    let ready := resolved.checkAll
    { story := ready
      events := .ready ready.goals.size :: .treeChanged
        :: ready.goals.names.flatMap ready.announce }
  else
    { story }

/-- Resolves all symbols and checks all goals anew. -/
def reanalyze (story : Story) : Story :=
  { story with symbols := (story.symbols.invalidateAll.update story.weights).1 }.checkAll

/-- The address of a goal of the header. -/
def headerGoalUri (headerUri title : String) : String := s!"{headerUri}#{title}"

/-- Enters a goal of the header. What reading it reports is reported about the header. -/
def enterHeaderGoal (story : Story) (title text : String) (map : Syntax.SourceMap) : Story :=
  let goal := StoryGoal.ofText title (headerGoalUri story.headerUri title) text .header
  let reports := goal.readingReports.map fun d => (map.diagnostic d).inFile story.headerUri
  let entered := story.enter goal
  { entered with headerReports := story.headerReports ++ reports }

/-- Empties the story and puts in what a header says. -/
def reset (story : Story) (uri text : String) (environment : Environment) : Story :=
  let parsed := Syntax.parseHeader text
  let header := parsed.tree
  let types := TypeRegistry.registerAll {} header.aliases
  let bare : Story :=
    { story with
      phase := .initializing
      goals := {}
      symbols := SymbolTable.declareAll {} headerGoal types header.declarations
      types
      environment
      weights := []
      headerUri := uri
      headerReports := parsed.diagnostics.map (·.inFile uri) }
  header.goalTexts.foldl (fun story (title, text, map) => story.enterHeaderGoal title text map) bare

/-- Starts to load a story in place of the one there is: its header is there, its goals are still to
be loaded. -/
def restart (story : Story) (inputs : StoryInputs) : Except StoryError Story :=
  inputs.check.map fun text => story.reset inputs.header.uri text inputs.environment

/-- A story that holds nothing but what a header says. -/
def ofHeader (uri text : String) (environment : Environment) : Story :=
  reset {} uri text environment

/-- Starts to load a story from nothing. -/
def start (inputs : StoryInputs) : Except StoryError Story := restart {} inputs

/-- Loads a whole story. -/
def load (inputs : StoryInputs) : Except StoryError Story := do
  let started ← start inputs
  let loaded ← inputs.pendingGoals.foldlM
    (fun story pending => (story.loadGoal pending).map (·.story)) started
  return loaded.finish.story

end Story

end StoryCheck
