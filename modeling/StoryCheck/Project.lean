import StoryCheck.Project.Manifest
import StoryCheck.Project.Walk
import StoryCheck.Story
/-!
# Projects

A project is found from any path inside it: the manifest lies in the closest directory above. All
paths of the manifest are meant from there. Goal files are the `.txt` files below the directory of
the goals; each is a goal of the name of the file.
-/

namespace StoryCheck

/-- A project with its paths. -/
structure Project where
  manifestPath : Path
  /-- The directory of the manifest. -/
  root : Path
  name : String
  header : Path
  goals : Path
  dependencies : List Path
  instances : Option Path
  orphans : List SymbolKey
  enumerations : List Enumeration
deriving DecidableEq, Repr, Inhabited

/-- Why a project cannot be read. -/
inductive ProjectError where
  /-- There is no manifest above a path. -/
  | noManifest (start : Path)
  | badManifest (path : Path)
  | unreadable (path : Path) (reason : ReadError)
  /-- The goal files of a directory cannot be found. -/
  | unwalkable (directory : Path) (reason : WalkError)
  | badInstances (path : Path)
deriving DecidableEq, Repr, Inhabited

/-- The text of an error. -/
def ProjectError.message : ProjectError → String
  | noManifest start =>
    s!"no {Manifest.fileName} found in {start.text} or any parent directory"
  | badManifest path => s!"invalid manifest {path.text}"
  | unreadable path reason => s!"failed to read {path.text}: {reason.message}"
  | unwalkable directory reason =>
    s!"failed to read {directory.text}: {reason.message directory}"
  | badInstances path => s!"invalid instance list {path.text}"

/-- Why a project cannot be loaded. -/
inductive LoadError where
  | project (error : ProjectError)
  | story (error : StoryError)
deriving DecidableEq, Repr, Inhabited

/-- The text of an error. -/
def LoadError.message : LoadError → String
  | project error => error.message
  | story error => error.message

/-- A failure with what was attempted. -/
structure Failure where
  /-- What could not be done; the error itself if there is no more to say. -/
  context : String
  error : LoadError
deriving DecidableEq, Repr, Inhabited

/-- The text of a failure. -/
def Failure.message (failure : Failure) : String :=
  let cause := failure.error.message
  if failure.context = cause then cause else s!"{failure.context}: {cause}"

namespace Project

/-! ## Discovery -/

/-- Reads the text at a path. -/
def readText (disk : Disk) (path : Path) : Except ProjectError String :=
  match disk.readText path with
  | .ok text => .ok text
  | .error reason => .error (.unreadable path reason)

/-- The directory in which the search for a manifest starts. -/
def startDirectory? (disk : Disk) (start : Path) : Option Path :=
  if disk.isFile start then start.parent? else some start

/-- The manifest that is closest above a path. -/
def findManifest? (disk : Disk) (start : Path) : Option Path :=
  (startDirectory? disk start).bind fun directory =>
    (directory.ancestors.map fun d => d.join ⟨Manifest.fileName⟩).find? disk.exists?

/-- The project that a manifest describes. -/
def ofManifest (manifestPath : Path) (manifest : Manifest) : Project :=
  let root := manifestPath.parent?.getD ⟨""⟩
  { manifestPath, root
    name := manifest.name
    header := root.join manifest.header
    goals := root.join manifest.goals
    dependencies := manifest.dependencies.map root.join
    instances := manifest.instances.map root.join
    orphans := manifest.orphans
    enumerations := manifest.enumerations }

/-- Reads the project of a manifest. -/
def readManifest (disk : Disk) (manifestPath : Path) : Except ProjectError Project := do
  let text ← readText disk manifestPath
  match Manifest.read? text with
  | some manifest => .ok (ofManifest manifestPath manifest)
  | none => .error (.badManifest manifestPath)

/-- Finds the project around a path. -/
def load (disk : Disk) (start : Path) : Except Failure Project :=
  match findManifest? disk start with
  | none =>
    let error := ProjectError.noManifest start
    .error { context := error.message, error := .project error }
  | some manifestPath =>
    match readManifest disk manifestPath with
    | .ok project => .ok project
    | .error error =>
      .error
        { context := s!"Failed to load project from {start.text}", error := .project error }

/-! ## Goal files -/

/-- The extension of goal files. -/
def goalExtension : String := "txt"

/-- Whether a path lies in the project. -/
def contains (project : Project) (path : Path) : Bool := path.isBelow project.root

/-- The directories that hold goal files. -/
def goalDirectories (project : Project) : List Path := project.goals :: project.dependencies

/-- Whether a path is that of a goal file of the project or its dependencies. -/
def isGoalFile (project : Project) (path : Path) : Bool :=
  path.extension? == some goalExtension && project.goalDirectories.any path.isBelow

/-- The goal files below a directory, by path. -/
def goalFilesBelow (disk : Disk) (directory : Path) : Except ProjectError (List Path) :=
  match disk.filesBelow directory with
  | .ok files =>
    .ok ((files.filter fun path => path.extension? == some goalExtension).mergeSort fun a b =>
      (a.order b).isLE)
  | .error reason => .error (.unwalkable directory reason)

/-- The goal files of the project itself. -/
def goalFiles (disk : Disk) (project : Project) : Except ProjectError (List Path) :=
  goalFilesBelow disk project.goals

/-- The goal files of all dependencies, in their order. -/
def sharedGoalFiles (disk : Disk) (project : Project) : Except ProjectError (List Path) :=
  (project.dependencies.mapM (goalFilesBelow disk)).map (·.flatten)

/-- The source that a file is. -/
def source (disk : Disk) (path : Path) : TextSource :=
  { name := path.stem?.getD "", uri := path.text, content := disk.readText path }

/-- All goal files, those of dependencies first. -/
def allGoalFiles (disk : Disk) (project : Project) : Except ProjectError (List Path) := do
  return (← sharedGoalFiles disk project) ++ (← goalFiles disk project)

/-! ## Loading -/

/-- The objects in the levels, none if the manifest names no list. -/
def levelObjects (disk : Disk) (project : Project) : Except ProjectError (List LevelObject) := do
  match project.instances with
  | none => return []
  | some path =>
    let text ← readText disk path
    match LevelObject.readList? text with
    | some objects => return objects
    | none => throw (.badInstances path)

/-- What the story of the project is loaded from, as far as the project itself can be read. -/
def readInputs (disk : Disk) (project : Project) : Except ProjectError StoryInputs := do
  let objects ← levelObjects disk project
  let shared ← sharedGoalFiles disk project
  let own ← goalFiles disk project
  return {
    header := source disk project.header
    dependencies := project.dependencies.map fun d => ⟨d.text, disk.isDirectory d⟩
    sharedGoals := shared.map (source disk)
    goals := own.map (source disk)
    environment :=
      { objects, orphans := project.orphans, enumerations := project.enumerations } }

/-- What the story of the project is loaded from. All dependencies have to be there. -/
def inputs (disk : Disk) (project : Project) : Except LoadError StoryInputs :=
  match project.dependencies.find? fun d => !disk.isDirectory d with
  | some dependency => .error (.story (.missingDependency dependency.text))
  | none =>
    match readInputs disk project with
    | .ok inputs => .ok inputs
    | .error error => .error (.project error)

/-- Loads and checks all goals of the project. -/
def check (disk : Disk) (project : Project) : Except Failure Story :=
  match inputs disk project with
  | .error error => .error { context := s!"Failed to read project {project.name}", error }
  | .ok inputs =>
    match Story.load inputs with
    | .ok story => .ok story
    | .error error =>
      .error { context := s!"Failed to load story of {project.name}", error := .story error }

end Project

end StoryCheck
