import StoryCheck.Environment
import StoryCheck.StoryGoal
/-!
# What a story is loaded from

A source is a text under a name and an address that may turn out unreadable. A story is loaded from
the source of its header, the directories it depends on, and the sources of goals.
-/

namespace StoryCheck

/-- Why a text cannot be read. -/
inductive ReadError where
  /-- There is nothing of that name. -/
  | absent
  | denied
  | noSuchFile
  | notDirectory
  | isDirectory
  /-- A name or the whole path has too many bytes. -/
  | nameTooLong
  /-- The path has a character of number zero. -/
  | nulInName
  | notText
deriving DecidableEq, Repr, Inhabited

/-- How a message speaks of the reason. -/
def ReadError.message : ReadError → String
  | absent => "entity not found"
  | denied => "permission denied"
  | noSuchFile => "No such file or directory (os error 2)"
  | notDirectory => "Not a directory (os error 20)"
  | isDirectory => "Is a directory (os error 21)"
  | nameTooLong => "File name too long (os error 36)"
  | nulInName => "file name contained an unexpected NUL byte"
  | notText => "stream did not contain valid UTF-8"

/-- A text under a name and an address. -/
structure TextSource where
  name : String
  uri : String
  content : Except ReadError String

/-- A text that is kept in memory. Its address is made of its name. -/
def TextSource.inMemory (name text : String) : TextSource :=
  { name, uri := s!"memory:///{name}", content := .ok text }

/-- A directory that a story depends on. -/
structure Dependency where
  path : String
  isPresent : Bool
deriving DecidableEq, Repr, Inhabited

/-- What a story is loaded from. -/
structure StoryInputs where
  header : TextSource
  dependencies : List Dependency := []
  /-- Goals of dependencies. -/
  sharedGoals : List TextSource := []
  goals : List TextSource := []
  environment : Environment := {}

/-- A goal that is still to be loaded. -/
structure PendingGoal where
  source : TextSource
  origin : GoalOrigin

/-- The goals to be loaded, those of dependencies first. -/
def StoryInputs.pendingGoals (inputs : StoryInputs) : List PendingGoal :=
  inputs.sharedGoals.map (⟨·, .shared⟩) ++ inputs.goals.map (⟨·, .local⟩)

/-- Why a story cannot be loaded. -/
inductive StoryError where
  | missingHeader (uri : String) (reason : ReadError)
  | missingDependency (path : String)
  | unreadableGoal (uri : String) (reason : ReadError)
deriving DecidableEq, Repr, Inhabited

/-- The text of an error. -/
def StoryError.message : StoryError → String
  | missingHeader uri reason => s!"story header {uri} could not be read: {reason.message}"
  | missingDependency path => s!"dependency directory {path} does not exist"
  | unreadableGoal uri reason => s!"failed to read goal {uri}: {reason.message}"

/-- The text of the header. -/
def StoryInputs.headerText (inputs : StoryInputs) : Except StoryError String :=
  match inputs.header.content with
  | .ok text => .ok text
  | .error reason => .error (.missingHeader inputs.header.uri reason)

/-- The text of the header, provided that all directories are there that the story depends on. -/
def StoryInputs.check (inputs : StoryInputs) : Except StoryError String :=
  match inputs.dependencies.find? (!·.isPresent) with
  | some dependency => .error (.missingDependency dependency.path)
  | none => inputs.headerText

/-- The text of a goal. -/
def TextSource.goalText (source : TextSource) : Except StoryError String :=
  match source.content with
  | .ok text => .ok text
  | .error reason => .error (.unreadableGoal source.uri reason)

end StoryCheck
