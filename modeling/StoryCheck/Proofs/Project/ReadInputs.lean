import StoryCheck.Proofs.Project.GoalFiles
import StoryCheck.Proofs.Story.Sources

/-!
# What a project is loaded from after a change

A change of a goal file leaves the other ones alone. So the project can be loaded again, and the goals
of other names are loaded from the same texts.

* **`inputs_eq_ok_iff`** — what a project is loaded from.
* **`inputs_of_changesAt`** — it is there after a change, too.
* **`addresses`** — the goals that are loaded, with address and origin.
* **`entries_of_changesAt`** — goals of other names come from the same texts.
-/

namespace StoryCheck

open Disk

/-- A result that is no error has a value. -/
theorem exists_of_isOk {ε α : Type} {result : Except ε α} (h : result.isOk = true) :
    ∃ a, result = .ok a := by
  cases result with
  | error reason => cases h
  | ok a => exact ⟨a, rfl⟩

namespace Project

variable {disk after : Disk} {path : Path} {changed : Place} {project : Project} {inputs : StoryInputs}
  {text : String}

/-! ## Inputs

The inputs are read in five steps, of which the first two and the listings can fail. The goals
themselves are read later, one by one. -/

/-- What a project is loaded from, by what was read. -/
def inputsOf (disk : Disk) (project : Project) (objects : List LevelObject) (shared own : List Path) :
    StoryInputs where
  header := source disk project.header
  dependencies := project.dependencies.map fun d => ⟨d.text, disk.isDirectory d⟩
  sharedGoals := shared.map (source disk)
  goals := own.map (source disk)
  environment := { objects, orphans := project.orphans, enumerations := project.enumerations }

/-- The inputs are read just if all directories are there and the three listings can be made. -/
theorem inputs_eq_ok_iff : project.inputs disk = .ok inputs ↔
    (∀ directory ∈ project.dependencies, disk.isDirectory directory = true)
      ∧ ∃ objects shared own, project.levelObjects disk = .ok objects
        ∧ project.sharedGoalFiles disk = .ok shared ∧ project.goalFiles disk = .ok own
        ∧ inputs = project.inputsOf disk objects shared own := by
  unfold Project.inputs
  cases hmissing : project.dependencies.find? fun d => !disk.isDirectory d with
  | some directory =>
    refine iff_of_false nofun fun h => ?_
    have hthere := h.1 directory (List.mem_of_find?_eq_some hmissing)
    simpa [hthere] using List.find?_some hmissing
  | none =>
    have hall : ∀ directory ∈ project.dependencies, disk.isDirectory directory = true := by
      simpa using hmissing
    -- The readings are made one after the other and end with the first that fails.
    unfold readInputs
    cases project.levelObjects disk with
    | error reason => exact iff_of_false nofun nofun
    | ok objects =>
    cases project.sharedGoalFiles disk with
    | error reason => exact iff_of_false nofun nofun
    | ok shared =>
    cases project.goalFiles disk with
    | error reason => exact iff_of_false nofun nofun
    | ok own =>
      constructor
      · intro h
        exact ⟨hall, objects, shared, own, rfl, rfl, rfl, (Except.ok.inj h).symm⟩
      · rintro ⟨-, _, _, _, hobjects, hshared, hown, rfl⟩
        cases hobjects
        cases hshared
        cases hown
        rfl

/-- **A project can be read again** if its list of objects can. -/
theorem inputs_of_changesAt (hchange : disk.ChangesAt after changed) (htree : disk.IsTree)
    (hnames : ∀ name ∈ changed, Path.IsName name) (hgoals : disk.isDirectory project.goals = true)
    (hobjects : (project.levelObjects after).isOk = true)
    (hinputs : project.inputs disk = .ok inputs) : ∃ found, project.inputs after = .ok found
      ∧ ((project.loadOrder after).filter fun file => file.1.stem? != changed.stem?)
        = (project.loadOrder disk).filter fun file => file.1.stem? != changed.stem? := by
  obtain ⟨hdependencies, _, shared, own, -, hshared, hown, -⟩ := inputs_eq_ok_iff.1 hinputs
  obtain ⟨sharedAfter, ownAfter, hsharedAfter, hownAfter, hsame⟩ :=
    loadOrder_of_changesAt hchange htree hnames ⟨hgoals, hdependencies⟩ hshared hown
  obtain ⟨objects, hread⟩ := exists_of_isOk hobjects
  have hdependenciesAfter : ∀ directory ∈ project.dependencies, after.isDirectory directory = true :=
    fun directory hmem => hchange.isDirectory (hdependencies directory hmem)
  exact ⟨_, inputs_eq_ok_iff.2 ⟨hdependenciesAfter, objects, sharedAfter, ownAfter, hread, hsharedAfter,
    hownAfter, rfl⟩, hsame⟩

/-- The directories a project depends on are there if its inputs were read. -/
theorem isPresent_of_mem (hinputs : project.inputs disk = .ok inputs) :
    ∀ d ∈ inputs.dependencies, d.isPresent = true := by
  obtain ⟨hdependencies, _, _, _, -, -, -, rfl⟩ := inputs_eq_ok_iff.1 hinputs
  intro d hmem
  obtain ⟨directory, hdirectory, rfl⟩ := List.mem_map.1 hmem
  exact hdependencies directory hdirectory

/-- The text of the header is what the disk has at its path, or the reason why there is none. -/
theorem header_content (hinputs : project.inputs disk = .ok inputs) :
    inputs.header = source disk project.header := by
  obtain ⟨-, _, _, _, -, -, -, rfl⟩ := inputs_eq_ok_iff.1 hinputs
  rfl

/-! ## Entries

An entry is a goal with its address, its text and where it comes from. The goals of the header come
first, then those of files in the order in which they are loaded. -/

/-- What a goal file brings. -/
def entryOf? (disk : Disk) (file : Path × GoalOrigin) : Option (String × String × String × GoalOrigin) :=
  PendingGoal.brings? ⟨source disk file.1, file.2⟩

/-- The entries of the inputs, read off the disk. -/
theorem entries_inputs (hinputs : project.inputs disk = .ok inputs) (text : String) :
    inputs.entries text
      = inputs.headerEntries text ++ (project.loadOrder disk).filterMap (entryOf? disk) := by
  obtain ⟨-, objects, shared, own, -, hshared, hown, rfl⟩ := inputs_eq_ok_iff.1 hinputs
  have hpending : (project.inputsOf disk objects shared own).pendingGoals
      = (project.loadOrder disk).map fun file => ⟨source disk file.1, file.2⟩ := by
    simp [StoryInputs.pendingGoals, inputsOf, loadOrder, hshared, hown, Except.toOption,
      List.map_map, Function.comp_def]
  rw [StoryInputs.entries, hpending, List.filterMap_map]
  rfl

/-- A file that can be read is an entry under its stem. -/
theorem entryOf?_of_readText {file : Path × GoalOrigin} {name : String}
    (hread : disk.readText file.1 = .ok text) (hname : file.1.stem? = some name) :
    entryOf? disk file = some (name, file.1.text, text, file.2) := by
  simp [entryOf?, PendingGoal.brings?, source, hread, hname, Except.toOption]

/-- Address and origin of the goals that are loaded, by name, in order. -/
def addresses (disk : Disk) (project : Project) : List (String × String × GoalOrigin) :=
  ((Syntax.parseHeader ((disk.readText project.header).toOption.getD "")).tree.goalTexts.map fun made =>
      (made.1, Story.headerGoalUri project.header.text made.1, .header))
    ++ (project.loadOrder disk).map fun file => (file.1.stem?.getD "", file.1.text, file.2)

/-- If all files can be read, the addresses of the entries are those of the project. -/
theorem addresses_eq (hinputs : project.inputs disk = .ok inputs)
    (hheader : disk.readText project.header = .ok text)
    (hreadable : ∀ file ∈ project.loadOrder disk, (disk.readText file.1).isOk = true) :
    project.addresses disk
      = (inputs.entries text).map fun entry => (entry.1, entry.2.1, entry.2.2.2) := by
  have hfiles : ((project.loadOrder disk).filterMap (entryOf? disk)).map
      (fun entry => (entry.1, entry.2.1, entry.2.2.2))
        = (project.loadOrder disk).map fun file => (file.1.stem?.getD "", file.1.text, file.2) := by
    rw [List.map_filterMap, ← List.filterMap_eq_map]
    refine List.filterMap_congr fun file hmem => ?_
    obtain ⟨name, -, hname⟩ := exists_fileName_of_mem_loadOrder hmem
    obtain ⟨text, hread⟩ := exists_of_isOk (hreadable file hmem)
    simp [entryOf?_of_readText hread hname, hname]
  rw [addresses, entries_inputs hinputs, List.map_append, hfiles, StoryInputs.headerEntries,
    header_content hinputs, hheader, List.map_map]
  rfl

/-- **Goals of other names come from the same texts.** -/
theorem entries_of_changesAt {found : StoryInputs} {name : String}
    (hchange : disk.ChangesAt after changed) (hname : changed.stem? = some name)
    (hreadable : ∀ file ∈ project.loadOrder disk, (disk.readText file.1).isOk = true)
    (hsame : ((project.loadOrder after).filter fun file => file.1.stem? != changed.stem?)
      = (project.loadOrder disk).filter fun file => file.1.stem? != changed.stem?)
    (hinputs : project.inputs disk = .ok inputs) (hfound : project.inputs after = .ok found)
    (text : String) : ((found.entries text).filter fun entry => entry.1 != name)
      = (inputs.entries text).filter fun entry => entry.1 != name := by
  -- A file brings a goal of its own name, so that names may be looked at before or after reading.
  have hfilter (disk : Disk) :
      (((project.loadOrder disk).filterMap (entryOf? disk)).filter fun entry => entry.1 != name)
        = ((project.loadOrder disk).filter fun file => file.1.stem? != changed.stem?).filterMap
          (entryOf? disk) := by
    rw [List.filter_filterMap, List.filterMap_filter]
    refine List.filterMap_congr fun file hmem => ?_
    obtain ⟨last, -, hstem⟩ := exists_fileName_of_mem_loadOrder hmem
    cases hread : disk.readText file.1 with
    | error reason => simp [entryOf?, PendingGoal.brings?, source, hread, Except.toOption]
    | ok text =>
      rw [entryOf?_of_readText hread hstem, hstem, hname]
      by_cases heq : (Path.splitName last).1 = name <;> simp [heq]
  have hread : ∀ file ∈ (project.loadOrder disk).filter fun file => file.1.stem? != changed.stem?,
      entryOf? after file = entryOf? disk file := by
    intro file hmem
    obtain ⟨hmem, hother⟩ := List.mem_filter.1 hmem
    obtain ⟨last, hlast, hstem⟩ := exists_fileName_of_mem_loadOrder hmem
    obtain ⟨text, hread⟩ := exists_of_isOk (hreadable file hmem)
    have hne : disk.locate file.1 ≠ .ok changed := by
      intro hlocate
      -- It would have the name of the changed file.
      rw [eq_writtenPlace_of_locate hlocate, stem?_writtenPlace hlast] at hother
      simp at hother
    rw [entryOf?_of_readText hread hstem, entryOf?_of_readText (hchange.readText hread hne) hstem]
  have hheader : found.headerEntries text = inputs.headerEntries text := by
    unfold StoryInputs.headerEntries
    rw [header_content hinputs, header_content hfound]
    rfl
  rw [entries_inputs hinputs, entries_inputs hfound, List.filter_append, List.filter_append, hheader,
    hfilter after, hfilter disk, hsame, List.filterMap_congr hread]

end Project

end StoryCheck
