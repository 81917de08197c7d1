import StoryCheck.Proofs.Lists
import StoryCheck.Proofs.Project.Disks
import StoryCheck.Proofs.Project.Readers

/-!
# Goal files after a change

A change of one file moves no other one in the order in which goals are loaded. So the goal files of
another name than that of the changed file are the same as before, in the same order.

* **`Project.loadOrder`** — goal files with the origin of their goals, as they are loaded.
* **`loadOrder_of_changesAt`** — those of other names stay as they are.
-/

namespace StoryCheck

open Disk

/-! ## Walks

A walk goes through the whole disk and keeps what lies below its directory. So a change at one place
adds or takes away what lies there, and the rest is found in the same order. -/

section Walk

variable {disk after : Disk} {directory path : Path} {top place changed : Place}

/-- The name of the goal in the file at a place. -/
def Place.stem? (place : Place) : Option String := place.getLast?.map fun name => (Path.splitName name).1

theorem stem?_writtenPlace {name : String} (h : path.fileName? = some name) :
    (writtenPlace path).stem? = path.stem? := by
  rw [Place.stem?, getLast?_writtenPlace h, Path.stem?, h]

/-- What a walk from a directory finds, if ignore files are well-formed. -/
def walked (disk : Disk) (directory : Path) (top : Place) : List Path :=
  (disk.files.filter fun file => walkReaches (.ofDisk disk) top file.1).map fun file =>
    directory.join (.ofNames (file.1.drop top.length))

theorem filesBelow_of_directory (hlocate : disk.locate directory = .ok top)
    (hnone : disk.fileAt? top = none) : disk.filesBelow directory
      = if (IgnoreRules.ofDisk disk).isWellFormedAbove top then .ok (walked disk directory top)
        else .error .badIgnoreFile := by
  unfold filesBelow
  rw [hlocate]
  simp only [hnone, Option.isSome_none, Bool.false_eq_true, if_false, Bool.not_eq_true']
  cases (IgnoreRules.ofDisk disk).isWellFormedAbove top <;> rfl

theorem found_of_filesBelow {files : List Path} (h : disk.filesBelow directory = .ok files) :
    files = [directory] ∨ ∃ top, files = walked disk directory top := by
  unfold filesBelow at h
  split at h
  · cases h
  next top hlocate =>
    dsimp only at h
    split at h
    · exact .inl (Except.ok.inj h).symm
    split at h
    · cases h
    · exact .inr ⟨top, (Except.ok.inj h).symm⟩

theorem length_lt_of_walkReaches {rules : IgnoreRules} (h : walkReaches rules top place = true) :
    top.length < place.length := by
  unfold walkReaches at h
  simp only [Bool.and_eq_true, decide_eq_true_eq] at h
  exact h.1.1.2

/-- What is found lies along names below the directory. -/
theorem exists_names_of_mem_walked (hnames : ∀ file ∈ disk.files, ∀ name ∈ file.1, Path.IsName name)
    (hmem : path ∈ walked disk directory top) :
    ∃ names ≠ [], (∀ name ∈ names, Path.IsName name) ∧ path = directory.join (.ofNames names) := by
  obtain ⟨file, hfile, rfl⟩ := List.mem_map.1 hmem
  obtain ⟨hfile, hreach⟩ := List.mem_filter.1 hfile
  refine ⟨file.1.drop top.length, ?_, ?_, rfl⟩
  · have hlt := length_lt_of_walkReaches hreach
    rw [Ne, List.drop_eq_nil_iff]
    omega
  · exact fun name hname => hnames file hfile name (List.mem_of_mem_drop hname)

/-- A file that is found has the name of its place. -/
theorem stem?_join_drop (directory : Path) (hnames : ∀ name ∈ place, Path.IsName name) (hlt : top.length < place.length) :
    (directory.join (.ofNames (place.drop top.length))).stem? = place.stem? := by
  obtain ⟨init, last, hdrop⟩ : ∃ init last, place.drop top.length = init ++ [last] := by
    rcases List.eq_nil_or_concat (place.drop top.length) with hnil | ⟨init, last, heq⟩
    · rw [List.drop_eq_nil_iff] at hnil
      omega
    · exact ⟨init, last, by rw [heq, List.concat_eq_append]⟩
  have hplace : place = place.take top.length ++ init ++ [last] := by
    rw [List.append_assoc, ← hdrop, List.take_append_drop]
  have hlast : (directory.join (.ofNames (place.drop top.length))).fileName? = some last := by
    rw [hdrop]
    refine Path.fileName?_join_ofNames directory init fun other hother => ?_
    exact hnames other (List.mem_of_mem_drop (hdrop ▸ hother))
  rw [Path.stem?, hlast, Place.stem?, hplace, List.getLast?_concat]

/-- Files of other names are found as before. -/
theorem filter_walked (hchange : disk.ChangesAt after changed)
    (hnames : ∀ name ∈ changed, Path.IsName name) :
    ((walked after directory top).filter fun path => path.stem? != changed.stem?)
      = (walked disk directory top).filter fun path => path.stem? != changed.stem? := by
  have hothers (files : List (Place × FileContent)) (rules : IgnoreRules) :
      (((files.filter fun file => walkReaches rules top file.1).map fun file =>
          directory.join (.ofNames (file.1.drop top.length))).filter fun path =>
        path.stem? != changed.stem?)
      = ((((files.filter fun file => file.1 != changed).filter fun file =>
          walkReaches rules top file.1).map fun file =>
            directory.join (.ofNames (file.1.drop top.length))).filter fun path =>
          path.stem? != changed.stem?) := by
    rw [List.filter_map, List.filter_map, List.filter_filter, List.filter_filter, List.filter_filter]
    congr 1
    refine List.filter_congr fun file _ => ?_
    by_cases heq : file.1 = changed
    · cases hreach : walkReaches rules top changed with
      | false => simp [heq, hreach]
      | true =>
        have hstem := stem?_join_drop directory hnames (length_lt_of_walkReaches hreach)
        simp [heq, hstem]
    · simp [heq]
  unfold walked
  rw [hothers after.files, hothers disk.files, hchange.files, hchange.rules]

/-- Paths that a walk finds are told apart by their parts. -/
theorem eq_of_parts_eq {other : Path}
    (hpath : ∃ names ≠ [], (∀ name ∈ names, Path.IsName name) ∧ path = directory.join (.ofNames names))
    (hother : ∃ names ≠ [], (∀ name ∈ names, Path.IsName name) ∧ other = directory.join (.ofNames names))
    (h : path.parts = other.parts) : path = other := by
  obtain ⟨names, hne, hnames, rfl⟩ := hpath
  obtain ⟨others, hothersne, hothers, rfl⟩ := hother
  rw [Path.parts_join_ofNames hne hnames, Path.parts_join_ofNames hothersne hothers] at h
  have hinjective : Function.Injective Path.Part.name := fun _ _ => Path.Part.name.inj
  rw [List.map_injective_iff.2 hinjective (List.append_cancel_left h)]

/-- Sorting keeps apart what is told apart by parts. -/
theorem filter_mergeSort_eq {first second : List Path} {p : Path → Bool}
    (hsame : first.filter p = second.filter p)
    (hparts : ∀ a ∈ first, ∀ b ∈ second, a.parts = b.parts → a = b) :
    (first.mergeSort fun a b => (a.order b).isLE).filter p
      = (second.mergeSort fun a b => (a.order b).isLE).filter p := by
  have hsorted (list : List Path) : ((list.mergeSort fun a b => (a.order b).isLE).filter p).Pairwise
      fun a b => (a.order b).isLE = true :=
    (List.pairwise_mergeSort Path.isLE_trans Path.isLE_total list).filter p
  have hperm : ((first.mergeSort fun a b => (a.order b).isLE).filter p).Perm
      ((second.mergeSort fun a b => (a.order b).isLE).filter p) :=
    ((List.mergeSort_perm first _).filter p).trans
      (hsame ▸ (List.mergeSort_perm second _).filter p).symm
  -- Sorted lists of the same paths may differ only where the order does not tell paths apart.
  refine hperm.eq_of_pairwise (fun a b ha hb hab hba => ?_) (hsorted first) (hsorted second)
  have ha := (List.mergeSort_perm first _).mem_iff.1 (List.mem_filter.1 ha).1
  have hb := (List.mergeSort_perm second _).mem_iff.1 (List.mem_filter.1 hb).1
  exact hparts a ha b hb (Path.parts_eq_of_isLE hab hba)

end Walk

/-! ## Goal files

The goal files of a project are those of several directories, one after the other, with those of its
own goals last. A later file takes the name of an earlier one. -/

namespace Project

variable {disk after : Disk} {directory path : Path} {changed : Place} {project : Project}

/-- **The goal files of other names below a directory stay as they are.** -/
theorem goalFilesBelow_of_changesAt (hchange : disk.ChangesAt after changed) (htree : disk.IsTree)
    (hnames : ∀ name ∈ changed, Path.IsName name) (hdirectory : disk.isDirectory directory = true)
    {files : List Path} (hfiles : goalFilesBelow disk directory = .ok files) :
    ∃ found, goalFilesBelow after directory = .ok found
      ∧ (found.filter fun path => path.stem? != changed.stem?)
        = files.filter fun path => path.stem? != changed.stem? := by
  obtain ⟨top, hlocate, htop⟩ := isDirectory_iff.1 hdirectory
  -- The directory is still there, since the change is at a place that was none.
  have hne : top ≠ changed := by
    rintro rfl
    rw [hchange.wasNotDirectory] at htop
    cases htop
  have hnone := htree.fileAt?_eq_none htop
  unfold goalFilesBelow at hfiles ⊢
  rw [filesBelow_of_directory hlocate hnone] at hfiles
  rw [filesBelow_of_directory (hchange.locate hlocate hne) ((hchange.fileAt? hne).trans hnone),
    hchange.rules]
  split at hfiles
  next files hwalk =>
    split at hwalk
    next hwell =>
      rw [if_pos hwell]
      obtain rfl := Except.ok.inj hfiles
      obtain rfl := Except.ok.inj hwalk
      refine ⟨_, rfl, filter_mergeSort_eq ?_ fun a ha b hb => ?_⟩
      · rw [List.filter_comm, filter_walked hchange hnames, List.filter_comm]
      · exact eq_of_parts_eq
          (exists_names_of_mem_walked (hchange.isName_of_mem htree hnames) (List.mem_filter.1 ha).1)
          (exists_names_of_mem_walked htree.names (List.mem_filter.1 hb).1)
    next => cases hwalk
  next => cases hfiles

/-- The goal files of other names below several directories stay as they are. -/
theorem mapM_goalFilesBelow_of_changesAt (hchange : disk.ChangesAt after changed) (htree : disk.IsTree)
    (hnames : ∀ name ∈ changed, Path.IsName name) {directories : List Path}
    (hdirectories : ∀ directory ∈ directories, disk.isDirectory directory = true)
    {lists : List (List Path)} (hlists : directories.mapM (goalFilesBelow disk) = .ok lists) :
    ∃ found, directories.mapM (goalFilesBelow after) = .ok found
      ∧ (found.flatten.filter fun path => path.stem? != changed.stem?)
        = lists.flatten.filter fun path => path.stem? != changed.stem? := by
  simp only [mapM_eq_ok_iff] at hlists ⊢
  induction hlists with
  | nil => exact ⟨[], .nil, rfl⟩
  | @cons directory files rest more hfirst _ ih =>
    obtain ⟨found, hfound, hsame⟩ := goalFilesBelow_of_changesAt hchange htree hnames
      (hdirectories directory List.mem_cons_self) hfirst
    obtain ⟨others, hothers, hsameOthers⟩ :=
      ih fun other hmem => hdirectories other (List.mem_cons_of_mem _ hmem)
    refine ⟨found :: others, .cons hfound hothers, ?_⟩
    rw [List.flatten_cons, List.flatten_cons, List.filter_append, List.filter_append, hsame, hsameOthers]

theorem sharedGoalFiles_eq_ok_iff {files : List Path} : project.sharedGoalFiles disk = .ok files ↔
    ∃ lists, project.dependencies.mapM (goalFilesBelow disk) = .ok lists ∧ lists.flatten = files := by
  unfold sharedGoalFiles
  cases project.dependencies.mapM (goalFilesBelow disk) with
  | error reason => exact iff_of_false nofun nofun
  | ok lists =>
    constructor
    · exact fun h => ⟨lists, rfl, Except.ok.inj h⟩
    · rintro ⟨_, h, rfl⟩
      cases h
      rfl

/-- Goal files with the origin of their goals, in the order in which they are loaded; none where the
directories cannot be walked. -/
def loadOrder (disk : Disk) (project : Project) : List (Path × GoalOrigin) :=
  ((project.sharedGoalFiles disk).toOption.getD []).map (·, .shared)
    ++ ((project.goalFiles disk).toOption.getD []).map (·, .local)

/-- The directories of a project that was loaded. -/
structure HasDirectories (disk : Disk) (project : Project) : Prop where
  goals : disk.isDirectory project.goals = true
  dependencies : ∀ directory ∈ project.dependencies, disk.isDirectory directory = true

/-- **The goal files of other names stay as they are**, in the order in which they are loaded. -/
theorem loadOrder_of_changesAt (hchange : disk.ChangesAt after changed) (htree : disk.IsTree)
    (hnames : ∀ name ∈ changed, Path.IsName name) (hdirectories : project.HasDirectories disk)
    {shared own : List Path} (hshared : project.sharedGoalFiles disk = .ok shared)
    (hown : project.goalFiles disk = .ok own) :
    ∃ sharedAfter ownAfter, project.sharedGoalFiles after = .ok sharedAfter
      ∧ project.goalFiles after = .ok ownAfter
      ∧ ((project.loadOrder after).filter fun file => file.1.stem? != changed.stem?)
        = (project.loadOrder disk).filter fun file => file.1.stem? != changed.stem? := by
  obtain ⟨lists, hlists, rfl⟩ := sharedGoalFiles_eq_ok_iff.1 hshared
  obtain ⟨found, hfound, hsameShared⟩ :=
    mapM_goalFilesBelow_of_changesAt hchange htree hnames hdirectories.dependencies hlists
  obtain ⟨ownAfter, hownAfter, hsameOwn⟩ :=
    goalFilesBelow_of_changesAt hchange htree hnames hdirectories.goals hown
  have hsharedAfter : project.sharedGoalFiles after = .ok found.flatten :=
    sharedGoalFiles_eq_ok_iff.2 ⟨found, hfound, rfl⟩
  have hownAfter : project.goalFiles after = .ok ownAfter := hownAfter
  refine ⟨found.flatten, ownAfter, hsharedAfter, hownAfter, ?_⟩
  have hfilter (files : List Path) (origin : GoalOrigin) :
      ((files.map fun path => (path, origin)).filter fun file => file.1.stem? != changed.stem?)
        = (files.filter fun path => path.stem? != changed.stem?).map fun path => (path, origin) :=
    List.filter_map
  simp only [loadOrder, hshared, hown, hsharedAfter, hownAfter, Except.toOption, Option.getD_some]
  rw [List.filter_append, List.filter_append, hfilter, hfilter, hfilter, hfilter, hsameShared, hsameOwn]

theorem extension?_of_mem_goalFilesBelow {files : List Path}
    (hfiles : goalFilesBelow disk directory = .ok files) (hmem : path ∈ files) :
    path.extension? = some goalExtension := by
  rw [goalFilesBelow_eq] at hfiles
  exact ((mem_of_goalFilesAmong hfiles).1 hmem).2

theorem isBelow_of_mem_goalFilesBelow (hnames : ∀ file ∈ disk.files, ∀ name ∈ file.1, Path.IsName name)
    {files : List Path} (hfiles : goalFilesBelow disk directory = .ok files) (hmem : path ∈ files) :
    path.isBelow directory = true := by
  rw [goalFilesBelow_eq] at hfiles
  obtain ⟨⟨found, hfound, hmem⟩, -⟩ := (mem_of_goalFilesAmong hfiles).1 hmem
  rcases found_of_filesBelow hfound with rfl | ⟨top, rfl⟩
  · obtain rfl := List.mem_singleton.1 hmem
    exact List.isPrefixOf_iff_prefix.2 (List.prefix_refl _)
  · obtain ⟨names, hne, hall, rfl⟩ := exists_names_of_mem_walked hnames hmem
    exact Path.isBelow_join_ofNames hne hall

/-- Goal files are found below the directories of a project. -/
theorem exists_directory_of_mem_loadOrder {file : Path × GoalOrigin}
    (hmem : file ∈ project.loadOrder disk) : ∃ directory ∈ project.goalDirectories, ∃ files,
      goalFilesBelow disk directory = .ok files ∧ file.1 ∈ files := by
  unfold loadOrder at hmem
  rcases List.mem_append.1 hmem with hmem | hmem
  · cases hshared : project.sharedGoalFiles disk with
    | error reason =>
      rw [hshared] at hmem
      cases hmem
    | ok files =>
      rw [hshared] at hmem
      obtain ⟨path, hpath, rfl⟩ := List.mem_map.1 hmem
      obtain ⟨lists, hlists, rfl⟩ := sharedGoalFiles_eq_ok_iff.1 hshared
      obtain ⟨files, hfiles, hpath⟩ := List.mem_flatten.1 hpath
      obtain ⟨directory, hdirectory, hread⟩ := exists_of_forall₂ (mapM_eq_ok_iff.1 hlists).flip hfiles
      exact ⟨directory, List.mem_cons_of_mem _ hdirectory, files, hread, hpath⟩
  · cases hown : project.goalFiles disk with
    | error reason =>
      rw [hown] at hmem
      cases hmem
    | ok files =>
      rw [hown] at hmem
      obtain ⟨path, hpath, rfl⟩ := List.mem_map.1 hmem
      exact ⟨project.goals, List.mem_cons_self, files, hown, hpath⟩

/-- Goal files are text files. -/
theorem extension?_of_mem_loadOrder {file : Path × GoalOrigin} (hmem : file ∈ project.loadOrder disk) :
    file.1.extension? = some goalExtension := by
  obtain ⟨directory, -, files, hfiles, hmem⟩ := exists_directory_of_mem_loadOrder hmem
  exact extension?_of_mem_goalFilesBelow hfiles hmem

theorem isGoalFile_of_mem_loadOrder (hnames : ∀ file ∈ disk.files, ∀ name ∈ file.1, Path.IsName name)
    {file : Path × GoalOrigin} (hmem : file ∈ project.loadOrder disk) :
    project.isGoalFile file.1 = true := by
  obtain ⟨directory, hdirectory, files, hfiles, hfile⟩ := exists_directory_of_mem_loadOrder hmem
  rw [isGoalFile, extension?_of_mem_loadOrder hmem, beq_self_eq_true, Bool.true_and, List.any_eq_true]
  exact ⟨directory, hdirectory, isBelow_of_mem_goalFilesBelow hnames hfiles hfile⟩

theorem exists_fileName_of_mem_loadOrder {file : Path × GoalOrigin}
    (hmem : file ∈ project.loadOrder disk) :
    ∃ name, file.1.fileName? = some name ∧ file.1.stem? = some (Path.splitName name).1 := by
  obtain ⟨name, hname, -⟩ := Option.bind_eq_some_iff.1 (extension?_of_mem_loadOrder hmem)
  exact ⟨name, hname, by rw [Path.stem?, hname, Option.map_some]⟩

end Project

end StoryCheck
