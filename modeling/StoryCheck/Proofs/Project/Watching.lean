import StoryCheck.Proofs.Project.Reloading

/-!
# Following changes instead of reloading

A story follows the changes of goal files one by one, and is meant to be what a reload would make of
the files. A reload knows in which directory a file lies and goes through all files of a name; who
follows a change knows the file that was changed, and the story.

* **`watch`** — what a story becomes when a file was changed.
* **`IsLoaded`**, **`IsReadable`**, **`IsGoalEdit`** — a story that a reload left, and an edit of one of
  its goal files.
* **`sources_watch_write`**, **`sources_watch_delete`** — what following does to the goals.
* **`IsFollowed`** — the goal of the name of the file is what it is taken for.
* **`watching_agrees_iff`** — just then the story has the goals that a reload would give.
-/

namespace StoryCheck

open Disk

namespace Project

variable {disk after : Disk} {path : Path} {project known : Project} {story idle : Story}
  {inputs : StoryInputs} {name text : String}

/-! ## What is done about a change

A vital file has everything loaded anew. Any other one is taken for the goal of its name, if it may
be one. -/

/-- What a story becomes when a change was carried out. One that failed leaves it alone. -/
def ChangeResult.serve (result : ChangeResult) (story : Story) : Story :=
  match result.requests with
  | .ok requests => ({ story, queue := requests } : Controller).drain.story
  | .error _ => story

/-- What a story becomes when a file was changed. -/
def watch (disk : Disk) (project : Project) (path : Path) (story : Story) : Story :=
  match project.changeAt? disk path with
  | some change => (project.apply disk change).serve story
  | none => story

theorem watch_eq (disk : Disk) (project : Project) (path : Path) (story : Story) :
    project.watch disk path story = match project.changeAt? disk path with
      | some change => (project.apply disk change).serve story
      | none => story := (rfl)

/-- A project with its story, both as a reload leaves them. -/
inductive IsLoaded (disk : Disk) : Project → Story → Prop
  | reload (known : Project) (idle : Story) (hphase : idle.phase ≠ .initializing)
    (hrequests : (known.reload disk).requests.isOk = true) :
    IsLoaded disk (known.reload disk).project ((known.reload disk).serve idle)

theorem serve_singleton (project : Project) (request : StoryRequest)
    (hphase : story.phase ≠ .initializing) :
    ChangeResult.serve { project, requests := .ok [request] } story
      = (Controller.apply story request).story := by
  have hrun := Controller.toOutcome_run hphase [request]
  rw [Controller.applyAll_singleton] at hrun
  exact congrArg Outcome.story hrun

/-- A reload that succeeds finds the project and reads all it is loaded from. -/
theorem exists_of_reload (h : (known.reload disk).requests.isOk = true) :
    ∃ found inputs, Project.load disk known.root = .ok found ∧ found.inputs disk = .ok inputs
      ∧ known.reload disk = { project := found, requests := .ok [.loadStory inputs] } := by
  unfold reload at h ⊢
  cases hload : Project.load disk known.root with
  | error failure =>
    rw [hload] at h
    cases h
  | ok found =>
    rw [hload] at h
    dsimp only at h ⊢
    cases hinputs : found.inputs disk with
    | error error =>
      rw [hinputs] at h
      cases h
    | ok inputs => exact ⟨found, inputs, rfl, hinputs, rfl⟩

theorem IsLoaded.exists_inputs (h : IsLoaded disk project story) :
    ∃ origin inputs, Project.load disk origin = .ok project ∧ project.inputs disk = .ok inputs
      ∧ ∃ idle : Story, idle.phase ≠ .initializing
        ∧ story = (Controller.apply idle (.loadStory inputs)).story := by
  obtain ⟨known, idle, hphase, hrequests⟩ := h
  obtain ⟨found, inputs, hload, hinputs, hreload⟩ := exists_of_reload hrequests
  rw [hreload]
  exact ⟨known.root, inputs, hload, hinputs, idle, hphase, serve_singleton found _ hphase⟩

/-- A story that a reload left is not being loaded any more. -/
theorem IsLoaded.phase_ne (h : IsLoaded disk project story) : story.phase ≠ .initializing := by
  obtain ⟨-, inputs, -, -, idle, hphase, rfl⟩ := h.exists_inputs
  exact Controller.phase_apply hphase _

theorem sources_of_inputs (story : Story) (hinputs : project.inputs disk = .ok inputs)
    (hheader : disk.readText project.header = .ok text) :
    (Controller.apply story (.loadStory inputs)).story.sources = lastNamed (inputs.entries text) := by
  refine Story.sources_loadStory story ?_ (isPresent_of_mem hinputs)
  rw [header_content hinputs]
  exact hheader

/-! ## Following

What becomes of the sources of a story when a change is followed, one lemma for each of the two
kinds of change. -/

theorem changeAt?_of_isGoalFile (hvital : project.isVital path = false)
    (hgoal : project.isGoalFile path = true) (hname : path.stem? = some name) :
    project.changeAt? disk path = if disk.isFile path then
        (disk.readText path).toOption.map fun text => .updateGoal name path.text text
      else some (.removeGoal name) := by
  rw [changeAt?, hvital, hgoal, hname]
  show (if disk.isFile path then _ else _) = _
  cases disk.readText path <;> rfl

/-- **A file that is there** becomes the goal of its name, from where that goal came. -/
theorem sources_watch_write (hphase : story.phase ≠ .initializing)
    (hvital : project.isVital path = false) (hgoal : project.isGoalFile path = true)
    (hname : path.stem? = some name) (hread : disk.readText path = .ok text) :
    (project.watch disk path story).sources = Function.update story.sources name
      (some (path.text, text, ((story.sources name).map (·.2.2)).getD .local)) := by
  have hfile : disk.isFile path = true := by
    obtain ⟨place, hlocate, hcontent⟩ := readText_eq_ok_iff.1 hread
    exact isFile_iff.2 ⟨place, hlocate, by rw [hcontent]; rfl⟩
  have hchange : project.changeAt? disk path = some (.updateGoal name path.text text) := by
    rw [changeAt?_of_isGoalFile hvital hgoal hname, if_pos hfile, hread]
    rfl
  have horigin : (story.sources name).map (·.2.2) = (story.goals.get? name).map (·.origin) :=
    Option.map_map _ _ _
  rw [watch_eq, hchange, horigin]
  dsimp only [Project.apply]
  rw [serve_singleton project _ hphase]
  exact story.sources_updateText name path.text text

/-- **A file that is gone** takes the goal of its name with it. -/
theorem sources_watch_delete (hphase : story.phase ≠ .initializing)
    (hvital : project.isVital path = false) (hgoal : project.isGoalFile path = true)
    (hname : path.stem? = some name) (hfile : disk.isFile path = false) :
    (project.watch disk path story).sources = Function.update story.sources name none := by
  have hchange : project.changeAt? disk path = some (.removeGoal name) := by
    rw [changeAt?_of_isGoalFile hvital hgoal hname, hfile]
    rfl
  rw [watch_eq, hchange]
  dsimp only [Project.apply]
  rw [serve_singleton project _ hphase]
  exact story.sources_remove name

/-! ## Edits

An edit puts a text in place of a goal file or takes the file away. The file is there on one of the
two disks at least, which is where its path is looked at. -/

/-- All that a project is loaded from is there and can be read. -/
structure IsReadable (disk : Disk) (project : Project) : Prop where
  tree : disk.IsTree
  goals : disk.isDirectory project.goals = true
  header : (disk.readText project.header).isOk = true
  objects : (project.levelObjects disk).isOk = true
  files : ∀ file ∈ project.loadOrder disk, (disk.readText file.1).isOk = true

instance (disk : Disk) (project : Project) : Decidable (project.IsReadable disk) :=
  decidable_of_iff
    (disk.IsTree ∧ disk.isDirectory project.goals = true ∧ (disk.readText project.header).isOk = true
      ∧ (project.levelObjects disk).isOk = true
      ∧ ∀ file ∈ project.loadOrder disk, (disk.readText file.1).isOk = true)
    ⟨fun ⟨htree, hgoals, hheader, hobjects, hfiles⟩ => ⟨htree, hgoals, hheader, hobjects, hfiles⟩,
      fun h => ⟨h.tree, h.goals, h.header, h.objects, h.files⟩⟩

/-- What is done to a file. -/
inductive FileEdit where
  /-- It is made, or its text becomes another one. -/
  | write (text : String)
  | delete
deriving DecidableEq, Repr

namespace FileEdit

/-- The disk after an edit. -/
def apply (edit : FileEdit) (disk : Disk) (path : Path) : Disk :=
  match edit with
  | write text => disk.write path (.text text)
  | delete => disk.delete path

/-- The disk on which the file is there: the one before it is taken away, or after it is written. -/
def holder (edit : FileEdit) (disk : Disk) (path : Path) : Disk :=
  match edit with
  | write _ => edit.apply disk path
  | delete => disk

end FileEdit

/-- A goal file of a project is edited, by the path under which it is loaded. -/
structure IsGoalEdit (disk : Disk) (project : Project) (path : Path) (edit : FileEdit) : Prop where
  listed : ∃ origin, (path, origin) ∈ project.loadOrder (edit.holder disk path)
  /-- No directory that is made for the file is hidden. -/
  seen : ∀ directory ∈ Place.above (writtenPlace path), disk.hasDirectory directory = false →
    directory.getLast?.any IgnoreRules.isHidden = false
  /-- If the file is the header, then the path says so. -/
  header : disk.locate project.header = .ok (writtenPlace path) → path.isSame project.header = true

variable {edit : FileEdit}

theorem IsGoalEdit.exists_name (h : project.IsGoalEdit disk path edit) :
    ∃ last, path.fileName? = some last ∧ path.stem? = some (Path.splitName last).1 := by
  obtain ⟨origin, hmem⟩ := h.listed
  have hname := exists_fileName_of_mem_loadOrder hmem
  exact hname

theorem IsGoalEdit.isText (h : project.IsGoalEdit disk path edit) : IsText (writtenPlace path) := by
  obtain ⟨origin, hmem⟩ := h.listed
  obtain ⟨last, hlast, -⟩ := h.exists_name
  have hextension := extension?_of_mem_loadOrder hmem
  rw [Path.extension?, hlast] at hextension
  rw [IsText, getLast?_writtenPlace hlast]
  exact hextension

theorem IsGoalEdit.isReadable_holder (hdisk : project.IsReadable disk)
    (hafter : project.IsReadable (edit.apply disk path)) : project.IsReadable (edit.holder disk path) := by
  cases edit with
  | write text => exact hafter
  | delete => exact hdisk

theorem IsGoalEdit.isGoalFile (h : project.IsGoalEdit disk path edit) (hdisk : project.IsReadable disk)
    (hafter : project.IsReadable (edit.apply disk path)) : project.isGoalFile path = true := by
  obtain ⟨origin, hmem⟩ := h.listed
  have hgoal := isGoalFile_of_mem_loadOrder (isReadable_holder hdisk hafter).tree.names hmem
  exact hgoal

/-- Where the file is, it lies where the path is written to lead. -/
theorem IsGoalEdit.exists_text (h : project.IsGoalEdit disk path edit) (hdisk : project.IsReadable disk)
    (hafter : project.IsReadable (edit.apply disk path)) : ∃ text,
      (edit.holder disk path).readText path = .ok text
        ∧ (edit.holder disk path).fileAt? (writtenPlace path) = some (.text text) := by
  obtain ⟨origin, hmem⟩ := h.listed
  obtain ⟨text, hread⟩ := exists_of_isOk ((isReadable_holder hdisk hafter).files _ hmem)
  obtain ⟨place, hlocate, hfile⟩ := readText_eq_ok_iff.1 hread
  exact ⟨text, hread, eq_writtenPlace_of_locate hlocate ▸ hfile⟩

/-- An edit changes the file and no other one. -/
theorem IsGoalEdit.changesAt (h : project.IsGoalEdit disk path edit) (hdisk : project.IsReadable disk)
    (hafter : project.IsReadable (edit.apply disk path)) :
    disk.ChangesAt (edit.apply disk path) (writtenPlace path) := by
  cases edit with
  | write text =>
    have hmem : (writtenPlace path, FileContent.text text) ∈ (disk.write path (.text text)).files :=
      List.mem_append_right _ List.mem_cons_self
    have hnot : disk.hasDirectory (writtenPlace path) = false := by
      have hapart := hafter.tree.apart _ hmem
      rw [← Bool.not_eq_true, hasDirectory_iff] at hapart ⊢
      exact fun hor => hapart (hor.imp_right (List.mem_append_left _))
    exact changesAt_write h.isText hnot h.seen _
  | delete =>
    obtain ⟨text, -, hfile⟩ := h.exists_text hdisk hafter
    exact changesAt_delete hdisk.tree h.isText (Option.isSome_iff_exists.2 ⟨_, hfile⟩)

/-! ## Agreement

After a reload the goal of a name is that of the last file with the name. Following the change gives
it the text that was written and the origin that it had. Whether the two agree is a question about
this one name, as all others stay as they are. -/

/-- Address and origin that a reload gives the goal of the name of a file. -/
def goalOf? (disk : Disk) (project : Project) (path : Path) : Option (String × GoalOrigin) :=
  lastNamed (project.addresses disk) (path.stem?.getD "")

/-- The goal of the name of the file is what the edit is taken for: a file that was written is the last
one of its name to be loaded, and from where the goal of that name came before, or from the project
itself if there was none; and without a file that was deleted there is no goal of that name. -/
def IsFollowed (disk : Disk) (project : Project) (path : Path) (edit : FileEdit) : Prop :=
  match edit with
  | .write _ => project.goalOf? (edit.apply disk path) path
      = some (path.text, ((project.goalOf? disk path).map (·.2)).getD .local)
  | .delete => project.goalOf? (edit.apply disk path) path = none

instance (disk : Disk) (project : Project) (path : Path) (edit : FileEdit) :
    Decidable (project.IsFollowed disk path edit) :=
  match edit with
  | .write _ | .delete => inferInstanceAs (Decidable (_ = _))

theorem lastNamed_addresses (hreadable : project.IsReadable disk) (hinputs : project.inputs disk = .ok inputs)
    (hheader : disk.readText project.header = .ok text) (name : String) :
    lastNamed (project.addresses disk) name
      = (lastNamed (inputs.entries text) name).map fun source => (source.1, source.2.2) := by
  rw [addresses_eq hinputs hheader hreadable.files]
  exact lastNamed_map fun source : String × String × GoalOrigin => (source.1, source.2.2)

/-- **What a reload gives**, but for the texts. -/
theorem IsLoaded.map_sources_eq (h : IsLoaded disk project story) (hreadable : project.IsReadable disk)
    (name : String) : (story.sources name).map (fun source => (source.1, source.2.2))
      = lastNamed (project.addresses disk) name := by
  obtain ⟨-, inputs, -, hinputs, idle, -, rfl⟩ := h.exists_inputs
  obtain ⟨text, hheader⟩ := exists_of_isOk hreadable.header
  rw [sources_of_inputs idle hinputs hheader, lastNamed_addresses hreadable hinputs hheader]

/-- The address of a file tells its text. -/
theorem lastNamed_entries_eq_iff {origin given : GoalOrigin} {written : String}
    (hreadable : project.IsReadable disk) (hinputs : project.inputs disk = .ok inputs)
    (hheader : disk.readText project.header = .ok text) (hlisted : (path, origin) ∈ project.loadOrder disk)
    (hname : path.stem? = some name) (hread : disk.readText path = .ok written) :
    lastNamed (inputs.entries text) name = some (path.text, written, given)
      ↔ lastNamed (project.addresses disk) name = some (path.text, given) := by
  rw [lastNamed_addresses hreadable hinputs hheader]
  constructor
  · intro h
    rw [h]
    rfl
  intro h
  obtain ⟨⟨address, other, from'⟩, hlast, heq⟩ := Option.map_eq_some_iff.1 h
  obtain ⟨rfl, rfl⟩ := Prod.mk.inj heq
  -- There is a file of that name, and files go before the header.
  have hfiles : lastNamed ((project.loadOrder disk).filterMap (entryOf? disk)) name
      = some (path.text, other, from') := by
    rw [entries_inputs hinputs, lastNamed_append] at hlast
    refine (Option.or_eq_some_iff.1 hlast).resolve_right fun hnone => ?_
    exact lastNamed_eq_none.1 hnone.1 _
      (List.mem_filterMap.2 ⟨_, hlisted, entryOf?_of_readText hread hname⟩) rfl
  obtain ⟨⟨file, fileOrigin⟩, hfile, hentry⟩ := List.mem_filterMap.1 (mem_of_lastNamed hfiles)
  obtain ⟨fileText, hfileText⟩ := exists_of_isOk (hreadable.files _ hfile)
  obtain ⟨last, -, hstem⟩ := exists_fileName_of_mem_loadOrder hfile
  rw [entryOf?_of_readText hfileText hstem] at hentry
  obtain ⟨haddress, hother, -⟩ : file.text = path.text ∧ fileText = other ∧ fileOrigin = from' := by
    simpa using (Prod.mk.inj (Option.some.inj hentry)).2
  have hpath : file = path := Path.mk.injEq .. ▸ haddress
  rw [hpath, hread] at hfileText
  rw [hlast, ← hother, Except.ok.inj hfileText]

/-- Where a goal came from when its story was loaded. -/
theorem map_origin_eq (hreadable : project.IsReadable disk) (hinputs : project.inputs disk = .ok inputs)
    (hheader : disk.readText project.header = .ok text) (name : String) :
    (lastNamed (inputs.entries text) name).map (·.2.2)
      = (lastNamed (project.addresses disk) name).map (·.2) := by
  rw [lastNamed_addresses hreadable hinputs hheader, Option.map_map]
  rfl

/-- Unless everything is loaded anew, it depends on the goal of that one name. -/
theorem agrees_iff_of_not_isVital {found : StoryInputs} (hphase : story.phase ≠ .initializing)
    (hdisk : project.IsReadable disk) (hafter : project.IsReadable (edit.apply disk path))
    (hedit : project.IsGoalEdit disk path edit) (hvital : project.isVital path = false)
    (hname : path.stem? = some name) (hinputs : project.inputs disk = .ok inputs)
    (hfound : project.inputs (edit.apply disk path) = .ok found)
    (hheader : disk.readText project.header = .ok text)
    (hheaderAfter : (edit.apply disk path).readText project.header = .ok text)
    (hothers : ((inputs.entries text).filter fun entry => entry.1 != name)
      = (found.entries text).filter fun entry => entry.1 != name)
    (hsources : story.sources = lastNamed (inputs.entries text)) :
    (project.watch (edit.apply disk path) path story).sources = lastNamed (found.entries text)
      ↔ project.IsFollowed disk path edit := by
  have hgoal := hedit.isGoalFile hdisk hafter
  have hholder := hedit.exists_text hdisk hafter
  have hgoalOf (disk : Disk) :
      project.goalOf? disk path = lastNamed (project.addresses disk) name := by
    rw [goalOf?, hname, Option.getD_some]
  -- A write updates the goal with the text written, and a deletion removes it. The comparison is
  -- then one under the name of the file.
  cases edit with
  | write content =>
    obtain ⟨written, hread, -⟩ := hholder
    obtain ⟨origin, hlisted⟩ := hedit.listed
    have hread : (FileEdit.apply (.write content) disk path).readText path = .ok written := hread
    have hwatch := sources_watch_write hphase hvital hgoal hname hread
    rw [hsources, map_origin_eq hdisk hinputs hheader] at hwatch
    rw [hwatch, update_lastNamed_eq_iff _ hothers, IsFollowed, hgoalOf, hgoalOf]
    exact lastNamed_entries_eq_iff hafter hfound hheaderAfter hlisted hname hread
  | delete =>
    obtain ⟨deleted, -, hfile⟩ := hholder
    have hgone : (FileEdit.apply .delete disk path).fileAt? (writtenPlace path) = none :=
      fileAt?_delete hdisk.tree (Option.isSome_iff_exists.2 ⟨_, hfile⟩)
    have hnot : (FileEdit.apply .delete disk path).isFile path = false := by
      rw [← Bool.not_eq_true, isFile_iff]
      rintro ⟨place, hlocate, hsome⟩
      rw [eq_writtenPlace_of_locate hlocate, hgone] at hsome
      cases hsome
    rw [sources_watch_delete hphase hvital hgoal hname hnot, hsources,
      update_lastNamed_eq_iff _ hothers, IsFollowed, hgoalOf,
      lastNamed_addresses hafter hfound hheaderAfter, Option.map_eq_none_iff]

/-- **Following a change agrees with reloading just if the change is followed.** A project and its
story were loaded from a disk on which all can be read. One of its goal files is made, changed or
deleted, and all can be read again. Then the project can be reloaded; and the story that followed the
change has each goal with the address, the text and the origin that a reload gives it, just if the file
is one that everything hangs on, or the goal of its name is what the change is taken for. -/
theorem watching_agrees_iff (hloaded : IsLoaded disk project story) (hdisk : project.IsReadable disk)
    (hafter : project.IsReadable (edit.apply disk path)) (hedit : project.IsGoalEdit disk path edit) :
    (project.reload (edit.apply disk path)).requests.isOk = true
      ∧ ((project.watch (edit.apply disk path) path story).sources
          = ((project.reload (edit.apply disk path)).serve {}).sources
        ↔ project.isVital path = true ∨ project.IsFollowed disk path edit) := by
  obtain ⟨origin, inputs, hload, hinputs, idle, hidle, rfl⟩ := hloaded.exists_inputs
  obtain ⟨last, hlast, hname⟩ := hedit.exists_name
  have hchange := hedit.changesAt hdisk hafter
  have hstem := (stem?_writtenPlace hlast).trans hname
  have hmanifest : (writtenPlace path).getLast? ≠ some Manifest.fileName := by
    intro heq
    have htext := hedit.isText
    rw [IsText, heq] at htext
    revert htext
    decide
  obtain ⟨found, hfound, hsame⟩ := inputs_of_changesAt hchange hdisk.tree
    (fun _ => isName_of_mem_writtenPlace) hdisk.goals hafter.objects hinputs
  obtain ⟨manifestPath, hreload⟩ := reload_of_changesAt hchange hdisk.tree hmanifest hload hfound
  obtain ⟨textAfter, hheaderAfter⟩ := exists_of_isOk hafter.header
  have hfresh (story : Story) (hphase : story.phase ≠ .initializing) :
      ((project.reload (edit.apply disk path)).serve story).sources
        = lastNamed (found.entries textAfter) := by
    rw [hreload, serve_singleton _ _ hphase]
    exact sources_of_inputs story hfound hheaderAfter
  have hphase := Controller.phase_apply hidle (.loadStory inputs)
  refine ⟨by rw [hreload]; rfl, ?_⟩
  rw [hfresh {} (by decide)]
  cases hvital : project.isVital path with
  | true =>
    -- Both reload, and a reload does not look at the story there is.
    rw [watch_eq, changeAt?, hvital]
    exact iff_of_true (hfresh _ hphase) (.inl rfl)
  | false =>
    obtain ⟨text, hheader⟩ := exists_of_isOk hdisk.header
    have hother : disk.locate project.header ≠ .ok (writtenPlace path) := by
      intro hlocate
      rw [isVital, hedit.header hlocate, Bool.or_true, Bool.true_or] at hvital
      cases hvital
    obtain rfl : text = textAfter :=
      Except.ok.inj ((hchange.readText hheader hother).symm.trans hheaderAfter)
    have hothers := entries_of_changesAt hchange hstem hdisk.files hsame hinputs hfound text
    rw [or_iff_right Bool.false_ne_true]
    exact agrees_iff_of_not_isVital hphase hdisk hafter hedit hvital hname hinputs hfound hheader
      hheaderAfter hothers.symm (sources_of_inputs idle hinputs hheader)

/-- A project with a goal of its own and an empty directory of shared ones. -/
def village : Project where
  manifestPath := ⟨"/osiris.toml"⟩
  root := ⟨"/"⟩
  name := "Village"
  header := ⟨"/header.div"⟩
  goals := ⟨"/Goals"⟩
  dependencies := [⟨"/Shared"⟩]
  instances := none
  orphans := []
  enumerations := []

/-- The files of the village. -/
def villageDisk : Disk where
  files :=
    [(["osiris.toml"],
        .text "name = \"Village\"\nheader = \"header.div\"\ndependencies = [\"Shared\"]\n"),
      (["header.div"], .text ""), (["Goals", "Start.txt"], .text "")]
  directories := [["Goals"], ["Shared"]]

/-- The story of the village, as a reload leaves it. -/
def villageStory : Story := (village.reload villageDisk).serve {}

theorem isLoaded_of_reload (h : (village.reload disk).requests.isOk = true)
    (hproject : (village.reload disk).project = village) :
    IsLoaded disk village ((village.reload disk).serve {}) := by
  have hreload := IsLoaded.reload village {} (by decide) h
  rw [hproject] at hreload
  exact hreload

/-- A goal of the project itself is followed. -/
theorem own_goal_is_followed :
    let after := villageDisk.write ⟨"/Goals/Start.txt"⟩ (.text "INITSECTION")
    (village.reload after).requests.isOk = true
      ∧ (village.watch after ⟨"/Goals/Start.txt"⟩ villageStory).sources
        = ((village.reload after).serve {}).sources := by
  have hloaded : IsLoaded villageDisk village villageStory :=
    isLoaded_of_reload (by decide +kernel) (by decide +kernel)
  have hedit : village.IsGoalEdit villageDisk ⟨"/Goals/Start.txt"⟩ (.write "INITSECTION") :=
    ⟨⟨.local, by decide +kernel⟩, by decide +kernel, by decide +kernel⟩
  obtain ⟨hok, hagrees⟩ := watching_agrees_iff hloaded (by decide +kernel) (by decide +kernel) hedit
  exact ⟨hok, hagrees.2 (.inr (by decide +kernel))⟩

/-- A new goal among the shared ones is taken for one of the project itself. -/
theorem new_shared_goal_is_not_followed :
    let after := villageDisk.write ⟨"/Shared/Craft.txt"⟩ (.text "")
    IsLoaded villageDisk village villageStory
      ∧ village.IsReadable villageDisk ∧ village.IsReadable after
      ∧ village.IsGoalEdit villageDisk ⟨"/Shared/Craft.txt"⟩ (.write "")
      ∧ (village.watch after ⟨"/Shared/Craft.txt"⟩ villageStory).sources "Craft"
        = some ("/Shared/Craft.txt", "", .local)
      ∧ (((village.reload after).serve {}).sources "Craft").map (·.2.2) = some .shared := by
  intro after
  -- The story is the one loaded from the disk before the write, and the reload reads the disk after
  -- it.
  have hloaded : IsLoaded villageDisk village villageStory :=
    isLoaded_of_reload (by decide +kernel) (by decide +kernel)
  have hreloaded : IsLoaded after village ((village.reload after).serve {}) :=
    isLoaded_of_reload (by decide +kernel) (by decide +kernel)
  have hdisk : village.IsReadable villageDisk := by decide +kernel
  have hafter : village.IsReadable after := by decide +kernel
  have hedit : village.IsGoalEdit villageDisk ⟨"/Shared/Craft.txt"⟩ (.write "") :=
    ⟨⟨.shared, by decide +kernel⟩, by decide +kernel, by decide +kernel⟩
  refine ⟨hloaded, hdisk, hafter, hedit, ?_, ?_⟩
  · have hnew : villageStory.sources "Craft" = none := by
      have hnone : lastNamed (village.addresses villageDisk) "Craft" = none := by decide +kernel
      rw [← hloaded.map_sources_eq hdisk, Option.map_eq_none_iff] at hnone
      exact hnone
    have hname : (⟨"/Shared/Craft.txt"⟩ : Path).stem? = some "Craft" := by decide +kernel
    have hread : after.readText ⟨"/Shared/Craft.txt"⟩ = .ok "" := by decide +kernel
    rw [sources_watch_write hloaded.phase_ne (by decide +kernel) (by decide +kernel) hname hread,
      Function.update_self, hnew]
    rfl
  · have haddress : lastNamed (village.addresses after) "Craft" = some ("/Shared/Craft.txt", .shared) := by
      decide +kernel
    rw [← hreloaded.map_sources_eq hafter] at haddress
    obtain ⟨source, hsource, heq⟩ := Option.map_eq_some_iff.1 haddress
    rw [hsource]
    exact congrArg some (Prod.mk.inj heq).2

end Project

end StoryCheck
