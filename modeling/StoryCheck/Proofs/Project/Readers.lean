import StoryCheck.Project

/-!
# Projects by any reader

A manifest is written in TOML, a list of objects in JSON, and a directory is walked with an eye on
ignore files. All three are formats of others, and the library reads them by itself:
`Manifest.read?`, `LevelObject.readList?` and `Disk.filesBelow`. How a project is found and how that
fails does not hang on them. So it is said here of any reader of texts and of whatever a walk brings,
and a reader that is put in their place changes no proof that rests on this.

* **`readBy`**, **`loadBy`**, **`objectsBy`** — a file, a project and a list of objects by a reader.
* **`goalFilesAmong`** — the goal files among those that a walk brings.
* **`load_eq`**, **`levelObjects_eq`**, **`goalFilesBelow_eq`** — a project is read in this way.
-/

namespace StoryCheck.Project

variable {α : Type} {disk : Disk} {path start : Path} {project : Project} {error : ProjectError}

/-! ## Files

A file is read by its text and by nothing else. There are two ways to fail, and both name the path: the
text is not to be had, or the reader refuses it. -/

/-- Reads the file at a path. -/
def readBy (read? : String → Option α) (refused : Path → ProjectError) (disk : Disk) (path : Path) :
    Except ProjectError α :=
  match disk.readText path with
  | .error reason => .error (.unreadable path reason)
  | .ok text =>
    match read? text with
    | some a => .ok a
    | none => .error (refused path)

variable {read? : String → Option α} {refused : Path → ProjectError}

/-- What comes of a file is what the reader makes of its text. -/
theorem readBy_eq_ok_iff {a : α} : readBy read? refused disk path = .ok a ↔
    ∃ text, disk.readText path = .ok text ∧ read? text = some a := by
  unfold readBy
  cases disk.readText path with
  | error reason => exact iff_of_false nofun nofun
  | ok text => cases hread : read? text <;> simp [hread]

/-- Without a text the reader is not asked. -/
theorem readBy_eq_error_iff : readBy read? refused disk path = .error error ↔
    (∃ reason, disk.readText path = .error reason ∧ error = .unreadable path reason)
      ∨ ∃ text, disk.readText path = .ok text ∧ read? text = none ∧ error = refused path := by
  unfold readBy
  cases disk.readText path with
  | error reason => simp [eq_comm]
  | ok text => cases hread : read? text <;> simp [hread, eq_comm]

/-! ## Manifests

The manifest that counts is the closest one above, whether it can be read or not: the search does not go
on behind one that is refused. -/

/-- Finds the project around a path. -/
def loadBy (read? : String → Option Manifest) (disk : Disk) (start : Path) : Except Failure Project :=
  match findManifest? disk start with
  | none =>
    .error { context := (ProjectError.noManifest start).message, error := .project (.noManifest start) }
  | some manifestPath =>
    match readBy read? .badManifest disk manifestPath with
    | .ok manifest => .ok (ofManifest manifestPath manifest)
    | .error error =>
      .error { context := s!"Failed to load project from {start.text}", error := .project error }

theorem readManifest_eq (disk : Disk) (manifestPath : Path) : readManifest disk manifestPath
    = (readBy Manifest.read? .badManifest disk manifestPath).map (ofManifest manifestPath) := by
  unfold readManifest readText readBy
  cases disk.readText manifestPath with
  | error reason => rfl
  | ok text =>
    dsimp only [bind, Except.bind]
    cases Manifest.read? text <;> rfl

/-- A project is found by the reader of manifests that there is. -/
theorem load_eq (disk : Disk) (start : Path) :
    Project.load disk start = loadBy Manifest.read? disk start := by
  unfold Project.load loadBy
  cases findManifest? disk start with
  | none => rfl
  | some manifestPath =>
    dsimp only
    rw [readManifest_eq]
    cases readBy Manifest.read? .badManifest disk manifestPath <;> rfl

variable {readManifest? : String → Option Manifest}

theorem loadBy_eq_ok_iff : loadBy readManifest? disk start = .ok project ↔
    ∃ manifestPath text manifest, findManifest? disk start = some manifestPath
      ∧ disk.readText manifestPath = .ok text ∧ readManifest? text = some manifest
      ∧ project = ofManifest manifestPath manifest := by
  unfold loadBy
  cases findManifest? disk start with
  | none => simp
  | some manifestPath =>
    simp only [Option.some.injEq, exists_and_left, exists_eq_left']
    cases hread : readBy readManifest? .badManifest disk manifestPath with
    | error error =>
      refine iff_of_false nofun fun ⟨text, htext, manifest, hmanifest, _⟩ => ?_
      rw [readBy_eq_ok_iff.2 ⟨text, htext, hmanifest⟩] at hread
      cases hread
    | ok found =>
      obtain ⟨text, htext, hfound⟩ := readBy_eq_ok_iff.1 hread
      simp [htext, hfound, eq_comm]

/-- A project is lost without a manifest, or by the one that was found. -/
theorem loadBy_eq_error_iff {failure : Failure} : loadBy readManifest? disk start = .error failure ↔
    (findManifest? disk start = none ∧ failure
      = { context := (ProjectError.noManifest start).message, error := .project (.noManifest start) })
      ∨ ∃ manifestPath error, findManifest? disk start = some manifestPath
        ∧ readBy readManifest? .badManifest disk manifestPath = .error error ∧ failure
          = { context := s!"Failed to load project from {start.text}", error := .project error } := by
  unfold loadBy
  cases findManifest? disk start with
  | none => simp [eq_comm]
  | some manifestPath =>
    dsimp only
    cases hread : readBy readManifest? .badManifest disk manifestPath with
    | ok manifest =>
      refine iff_of_false nofun ?_
      rintro (⟨⟨⟩, -⟩ | ⟨other, error, hfind, herror, -⟩)
      obtain rfl := Option.some.inj hfind
      cases hread.symm.trans herror
    | error error =>
      constructor
      · intro h
        exact .inr ⟨manifestPath, error, rfl, hread, (Except.error.inj h).symm⟩
      · rintro (⟨⟨⟩, -⟩ | ⟨other, error', hfind, herror, rfl⟩)
        obtain rfl := Option.some.inj hfind
        obtain rfl := Except.error.inj (hread.symm.trans herror)
        rfl

/-! ## Objects and goal files

The two readings of a project that go through a reader of their own: the list of objects, and the
walk through a directory. -/

/-- The objects in the levels, none if the manifest names no list. -/
def objectsBy (read? : String → Option (List LevelObject)) (disk : Disk) (project : Project) :
    Except ProjectError (List LevelObject) :=
  match project.instances with
  | none => .ok []
  | some path => readBy read? .badInstances disk path

/-- The objects are read by the reader of lists that there is. -/
theorem levelObjects_eq (disk : Disk) (project : Project) :
    project.levelObjects disk = objectsBy LevelObject.readList? disk project := by
  unfold levelObjects readText objectsBy readBy
  cases project.instances with
  | none => rfl
  | some path =>
    dsimp only
    cases disk.readText path with
    | error reason => rfl
    | ok text =>
      dsimp only [bind, Except.bind]
      cases LevelObject.readList? text <;> rfl

/-- Only a list that the manifest names can fail. -/
theorem objectsBy_eq_error_iff {read? : String → Option (List LevelObject)} :
    objectsBy read? disk project = .error error
      ↔ ∃ path, project.instances = some path ∧ readBy read? .badInstances disk path = .error error := by
  unfold objectsBy
  cases project.instances with
  | none => simp
  | some path => simp

/-- The goal files among those that a walk below a directory brings, by path. -/
def goalFilesAmong (directory : Path) (walk : Except WalkError (List Path)) :
    Except ProjectError (List Path) :=
  match walk with
  | .ok files =>
    .ok ((files.filter fun path => path.extension? == some goalExtension).mergeSort fun a b =>
      (a.order b).isLE)
  | .error reason => .error (.unwalkable directory reason)

/-- A directory is walked with the rules of its ignore files. -/
theorem goalFilesBelow_eq (disk : Disk) (directory : Path) :
    goalFilesBelow disk directory = goalFilesAmong directory (disk.filesBelow directory) := rfl

variable {directory : Path} {walk : Except WalkError (List Path)}

/-- No walk is lost for what it brings. -/
theorem isOk_goalFilesAmong (directory : Path) (walk : Except WalkError (List Path)) :
    (goalFilesAmong directory walk).isOk = walk.isOk := by
  cases walk <;> rfl

/-- A walk that fails is reported with its directory. -/
theorem goalFilesAmong_eq_error_iff : goalFilesAmong directory walk = .error error
    ↔ ∃ reason, walk = .error reason ∧ error = .unwalkable directory reason := by
  unfold goalFilesAmong
  cases walk with
  | error reason => simp [eq_comm]
  | ok files => simp

/-- What comes of a walk are those of its files that are goal files, and no others. -/
theorem mem_of_goalFilesAmong {files : List Path} (hfiles : goalFilesAmong directory walk = .ok files) :
    path ∈ files ↔ (∃ found, walk = .ok found ∧ path ∈ found)
      ∧ path.extension? = some goalExtension := by
  unfold goalFilesAmong at hfiles
  cases walk with
  | error reason => cases hfiles
  | ok found =>
    obtain rfl := Except.ok.inj hfiles
    rw [(List.mergeSort_perm _ _).mem_iff, List.mem_filter, beq_iff_eq]
    simp

end StoryCheck.Project
