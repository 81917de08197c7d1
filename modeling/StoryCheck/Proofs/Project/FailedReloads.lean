import StoryCheck.Proofs.Project.Watching

/-!
# Reloads that fail

A reload takes two steps. The project is found anew, and then all is read that its story is loaded from.
If a step fails, nothing is sent. But the project found takes the place of the one there was before the
second step is taken, so it stays when that fails.

* **`IsLost`**, **`load_eq_error_iff`** — how the first step fails.
* **`IsUnreadable`**, **`inputs_eq_error_iff`** — how the second one fails.
* **`reload_keeps_project_iff`** — what is left of the project then.
-/

namespace StoryCheck

open Disk

namespace Project

variable {disk : Disk} {start : Path} {project : Project} {failure : Failure} {error : LoadError}

/-! ## Finding the project

The reasons for which no project is found, in the order in which they are met. -/

/-- Why no project is found around a path. -/
inductive IsLost (disk : Disk) (start : Path) : Failure → Prop
  | noManifest (hfind : findManifest? disk start = none) :
    IsLost disk start
      { context := (ProjectError.noManifest start).message, error := .project (.noManifest start) }
  | unreadable {manifestPath : Path} {reason : ReadError}
    (hfind : findManifest? disk start = some manifestPath)
    (hread : disk.readText manifestPath = .error reason) :
    IsLost disk start
      { context := s!"Failed to load project from {start.text}"
        error := .project (.unreadable manifestPath reason) }
  | badManifest {manifestPath : Path} {text : String}
    (hfind : findManifest? disk start = some manifestPath)
    (hread : disk.readText manifestPath = .ok text) (hbad : Manifest.read? text = none) :
    IsLost disk start
      { context := s!"Failed to load project from {start.text}"
        error := .project (.badManifest manifestPath) }

/-- A manifest is looked for, its text is read, and the text is taken for a manifest: each of these may
fail, and nothing else can. -/
theorem load_eq_error_iff : Project.load disk start = .error failure ↔ IsLost disk start failure := by
  rw [load_eq, loadBy_eq_error_iff]
  constructor
  · rintro (⟨hfind, rfl⟩ | ⟨manifestPath, error, hfind, hread, rfl⟩)
    · exact .noManifest hfind
    · rcases readBy_eq_error_iff.1 hread with ⟨reason, htext, rfl⟩ | ⟨text, htext, hbad, rfl⟩
      · exact .unreadable hfind htext
      · exact .badManifest hfind htext hbad
  · intro h
    cases h with
    | noManifest hfind => exact .inl ⟨hfind, rfl⟩
    | unreadable hfind hread =>
      exact .inr ⟨_, _, hfind, readBy_eq_error_iff.2 (.inl ⟨_, hread, rfl⟩), rfl⟩
    | badManifest hfind hread hbad =>
      exact .inr ⟨_, _, hfind, readBy_eq_error_iff.2 (.inr ⟨_, hread, hbad, rfl⟩), rfl⟩

/-! ## Reading what the story is loaded from

The same for the files of a project that was found. The first thing that cannot be read is what is
reported, so that each reason comes with what had been read before it. -/

/-- Why the objects in the levels cannot be read. -/
inductive LacksObjects (disk : Disk) (project : Project) : ProjectError → Prop
  | unreadable {path : Path} {reason : ReadError} (hpath : project.instances = some path)
    (hread : disk.readText path = .error reason) :
    LacksObjects disk project (.unreadable path reason)
  | badInstances {path : Path} {text : String} (hpath : project.instances = some path)
    (hread : disk.readText path = .ok text) (hbad : LevelObject.readList? text = none) :
    LacksObjects disk project (.badInstances path)

theorem levelObjects_eq_error_iff {reason : ProjectError} :
    project.levelObjects disk = .error reason ↔ LacksObjects disk project reason := by
  rw [levelObjects_eq, objectsBy_eq_error_iff]
  constructor
  · rintro ⟨path, hpath, hread⟩
    rcases readBy_eq_error_iff.1 hread with ⟨cause, htext, rfl⟩ | ⟨text, htext, hbad, rfl⟩
    · exact .unreadable hpath htext
    · exact .badInstances hpath htext hbad
  · intro h
    cases h with
    | unreadable hpath hread => exact ⟨_, hpath, readBy_eq_error_iff.2 (.inl ⟨_, hread, rfl⟩)⟩
    | badInstances hpath hread hbad =>
      exact ⟨_, hpath, readBy_eq_error_iff.2 (.inr ⟨_, hread, hbad, rfl⟩)⟩

/-- Why what the story of a project is loaded from cannot be read: a dependency is not there, the objects
in the levels cannot be read, or a directory of goals cannot be walked. The first problem counts. -/
inductive IsUnreadable (disk : Disk) (project : Project) : LoadError → Prop
  | missing {front back : List Path} {directory : Path}
    (hsplit : project.dependencies = front ++ directory :: back)
    (hfront : ∀ other ∈ front, disk.isDirectory other = true)
    (hmissing : disk.isDirectory directory = false) :
    IsUnreadable disk project (.story (.missingDependency directory.text))
  | objects {reason : ProjectError}
    (hthere : ∀ directory ∈ project.dependencies, disk.isDirectory directory = true)
    (hobjects : LacksObjects disk project reason) : IsUnreadable disk project (.project reason)
  | unwalkable {front back : List Path} {directory : Path} {reason : WalkError}
    (hthere : ∀ directory ∈ project.dependencies, disk.isDirectory directory = true)
    (hobjects : (project.levelObjects disk).isOk = true)
    (hsplit : project.dependencies ++ [project.goals] = front ++ directory :: back)
    (hfront : ∀ other ∈ front, (disk.filesBelow other).isOk = true)
    (hwalk : disk.filesBelow directory = .error reason) :
    IsUnreadable disk project (.project (.unwalkable directory reason))

/-- The goal files of all directories are read in order, those of the goals of the project last. -/
theorem readInputs_eq_error_iff {reason : ProjectError} : project.readInputs disk = .error reason
    ↔ project.levelObjects disk = .error reason ∨ (project.levelObjects disk).isOk = true
      ∧ (project.dependencies ++ [project.goals]).mapM (goalFilesBelow disk) = .error reason := by
  unfold readInputs sharedGoalFiles goalFiles
  rw [List.mapM_append, List.mapM_cons, List.mapM_nil]
  cases project.levelObjects disk with
  | error other => simp [bind, Except.bind, Except.isOk, Except.toBool]
  | ok objects =>
  cases project.dependencies.mapM (goalFilesBelow disk) with
  | error other => simp [bind, Except.bind, Except.map, Except.isOk, Except.toBool]
  | ok shared =>
  cases goalFilesBelow disk project.goals with
  | error other => simp [bind, Except.bind, Except.map, Except.isOk, Except.toBool]
  | ok own =>
    simp [bind, Except.bind, Except.map, pure, Except.pure]

theorem inputs_of_there
    (hthere : ∀ directory ∈ project.dependencies, disk.isDirectory directory = true) :
    project.inputs disk = .error error
      ↔ ∃ reason, project.readInputs disk = .error reason ∧ error = .project reason := by
  have hmissing : (project.dependencies.find? fun d => !disk.isDirectory d) = none := by
    simpa using hthere
  unfold Project.inputs
  rw [hmissing]
  cases project.readInputs disk with
  | error reason => simp [eq_comm]
  | ok inputs => simp

theorem inputs_eq_error_iff : project.inputs disk = .error error ↔ IsUnreadable disk project error := by
  have hthere_iff : (project.dependencies.find? fun d => !disk.isDirectory d) = none
      ↔ ∀ directory ∈ project.dependencies, disk.isDirectory directory = true := by
    simp
  -- A missing dependency is asked for before anything is read.
  cases hmissing : project.dependencies.find? fun d => !disk.isDirectory d with
  | some directory =>
    obtain ⟨hdirectory, front, back, hsplit, hfront⟩ := List.find?_eq_some_iff_append.1 hmissing
    have hnot : ¬ ∀ directory ∈ project.dependencies, disk.isDirectory directory = true := by
      rw [← hthere_iff, hmissing]
      exact Option.some_ne_none _
    unfold Project.inputs
    rw [hmissing]
    constructor
    · intro h
      obtain rfl := Except.error.inj h
      exact .missing hsplit (by simpa using hfront) (by simpa using hdirectory)
    · intro h
      cases h with
      | @missing front' back' other hsplit' hfront' hmissing' =>
        have hfound : (project.dependencies.find? fun d => !disk.isDirectory d) = some other :=
          List.find?_eq_some_iff_append.2 ⟨by simpa using hmissing', front', back', hsplit',
            by simpa using hfront'⟩
        obtain rfl := Option.some.inj (hmissing.symm.trans hfound)
        rfl
      | objects hthere => exact absurd hthere hnot
      | unwalkable hthere => exact absurd hthere hnot
  | none =>
    have hthere := hthere_iff.1 hmissing
    simp only [inputs_of_there hthere, readInputs_eq_error_iff, levelObjects_eq_error_iff,
      mapM_eq_error_iff, goalFilesBelow_eq, goalFilesAmong_eq_error_iff, isOk_goalFilesAmong]
    constructor
    · rintro ⟨reason, hobjects | ⟨hobjects, front, directory, back, hsplit, hfront, cause, hwalk, rfl⟩,
        rfl⟩
      · exact .objects hthere hobjects
      · exact .unwalkable hthere hobjects hsplit hfront hwalk
    · intro h
      cases h with
      | missing hsplit _ hmissing' =>
        have hdirectory := hthere _ (hsplit ▸ List.mem_append_right _ List.mem_cons_self)
        rw [hmissing'] at hdirectory
        cases hdirectory
      | objects _ hobjects => exact ⟨_, .inl hobjects, rfl⟩
      | unwalkable _ hobjects hsplit hfront hwalk =>
        exact ⟨_, .inr ⟨hobjects, _, _, _, hsplit, hfront, _, hwalk, rfl⟩, rfl⟩

/-! ## Reloading

A reload takes over the project that it has found before it reads what that names. If the second
step fails, the watcher goes on with the new project and the old story. -/

/-- The requests of a change are put behind those that wait. A failure sends none. -/
def ChangeResult.sendTo (result : ChangeResult) (controller : Controller) : Controller :=
  match result.requests with
  | .ok requests => requests.foldl Controller.send controller
  | .error _ => controller

/-- **A reload that fails sends nothing, and leaves the project alone exactly if no project is found or
it is found as it was.** A reload that succeeds takes the project found and sends a single request, to
load its story from what it is loaded from now. -/
theorem reload_keeps_project_iff (disk : Disk) (project : Project) (controller : Controller) :
    let result := project.apply disk .reload
    (∀ failure, result.requests = .error failure ↔ IsLost disk project.root failure
      ∨ ∃ found error, Project.load disk project.root = .ok found ∧ IsUnreadable disk found error
        ∧ failure = { context := s!"Failed to reload project {found.name}", error })
    ∧ (∀ failure, result.requests = .error failure → result.sendTo controller = controller
      ∧ (result.project = project ↔ IsLost disk project.root failure
        ∨ Project.load disk project.root = .ok project))
    ∧ ∀ requests, result.requests = .ok requests → ∃ inputs,
      Project.load disk project.root = .ok result.project
        ∧ result.project.inputs disk = .ok inputs
        ∧ result.sendTo controller = controller.send (.loadStory inputs) := by
  intro result
  -- A reload fails where the project is not found, or where it is found and its files cannot be
  -- read. In the second case the project found has been taken already.
  cases hload : Project.load disk project.root with
  | error lost =>
    have hresult : result = { project, requests := .error lost } := by
      simp only [result, Project.apply, reload, hload]
    have hlost (failure : Failure) : IsLost disk project.root failure ↔ lost = failure := by
      rw [← load_eq_error_iff, hload, Except.error.injEq]
    rw [hresult]
    refine ⟨fun failure => ?_, fun failure hfailure => ⟨rfl, iff_of_true rfl (.inl ?_)⟩, ?_⟩
    · simp [hlost]
    · exact (hlost failure).2 (Except.error.inj hfailure)
    · intro requests hrequests
      cases hrequests
  | ok found =>
    have hnotLost (failure : Failure) : ¬ IsLost disk project.root failure := by
      rw [← load_eq_error_iff, hload]
      simp
    cases hinputs : found.inputs disk with
    | error error =>
      have hresult : result = { project := found, requests := .error {
          context := s!"Failed to reload project {found.name}", error } } := by
        simp only [result, Project.apply, reload, hload, hinputs]
      rw [hresult]
      refine ⟨fun failure => ?_, fun failure _ => ⟨rfl, ?_⟩, ?_⟩
      · rw [or_iff_right (hnotLost failure)]
        simp [← inputs_eq_error_iff, hinputs, eq_comm]
      · rw [or_iff_right (hnotLost failure), Except.ok.injEq]
      · intro requests hrequests
        cases hrequests
    | ok inputs =>
      have hresult : result = { project := found, requests := .ok [.loadStory inputs] } := by
        simp only [result, Project.apply, reload, hload, hinputs]
      rw [hresult]
      refine ⟨fun failure => ?_, ?_, fun requests hrequests => ⟨inputs, rfl, hinputs, rfl⟩⟩
      · rw [or_iff_right (hnotLost failure)]
        simp [← inputs_eq_error_iff, hinputs]
      · intro failure hfailure
        cases hfailure

/-- The files of the village after its manifest names another directory of goals, which is not there. -/
def movedDisk : Disk :=
  villageDisk.write ⟨"/osiris.toml"⟩ (.text ("name = \"Village\"\nheader = \"header.div\"\n"
    ++ "dependencies = [\"Shared\"]\ngoals = \"Quests\"\n"))

/-- The reload fails. Yet the goals that are loaded do not count as goal files any more. -/
theorem failed_reload_moves_goals : (village.apply villageDisk .reload).requests.isOk = true
    ∧ (village.apply villageDisk .reload).project = village
    ∧ (village.apply movedDisk .reload).requests.isOk = false
    ∧ (village.apply movedDisk .reload).project ≠ village
    ∧ village.isGoalFile ⟨"/Goals/Start.txt"⟩ = true
    ∧ (village.apply movedDisk .reload).project.isGoalFile ⟨"/Goals/Start.txt"⟩ = false := by
  decide +kernel

end Project

end StoryCheck
