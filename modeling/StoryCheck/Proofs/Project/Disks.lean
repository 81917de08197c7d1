import StoryCheck.Project.Walk
import StoryCheck.Proofs.Project.Paths

/-!
# Changes of one file

A file that is made, written or taken away leaves alone all that lies elsewhere: paths that led to
other places lead there still, other files have the texts they had, and a walk finds the same other
files.

* **`Disk.IsTree`** — files and directories make up a tree.
* **`Disk.ChangesAt`** — two disks are the same but for the file at a place.
* **`changesAt_write`**, **`changesAt_delete`** — making, writing and taking away.
* **`ChangesAt.locate`**, **`ChangesAt.readText`** — paths that lead elsewhere.
-/

namespace StoryCheck

/-! ## Places

A path is followed part by part, and the place it leads to is written in it: two dots take the last
name away, a name is added, the root starts anew. So for paths that can be followed, the place is
known without a look at the disk. -/

namespace Path

variable {directory path : Path} {names : List String} {name : String}

/-- The names among the parts of a path are names. -/
theorem isName_of_mem_parts (h : .name name ∈ path.parts) : IsName name := by
  have hsegment : .name name ∈ path.segments.filterMap Part.ofSegment? := by
    rcases List.mem_append.1 h with hstart | hsegment
    · -- What marks the start of a path is not a name.
      split at hstart
      · simp at hstart
      · split at hstart <;> simp at hstart
    · exact hsegment
  obtain ⟨segment, hmem, hpart⟩ := List.mem_filterMap.1 hsegment
  unfold Part.ofSegment? at hpart
  split at hpart
  · cases hpart
  · next hcounts =>
    split at hpart
    · cases hpart
    · next hup =>
      obtain rfl := Part.name.inj (Option.some.inj hpart)
      rw [not_or] at hcounts
      exact ⟨by simp [hcounts, hup], not_mem_of_mem_segments path hmem⟩

end Path

namespace Disk

variable {directory path : Path} {names : List String} {name : String}

/-- One part of a path after the other. -/
def stepPlace (place : Place) : Path.Part → Place
  | .root | .here => place
  | .up => place.dropLast
  | .name name => place ++ [name]

/-- The place that is written in a path is worked out part by part. -/
theorem writtenPlace_eq (path : Path) : writtenPlace path = path.parts.foldl stepPlace [] := rfl

/-- Names alone lead down, one by one. -/
theorem foldl_stepPlace_names (place : Place) (names : List String) :
    (names.map Path.Part.name).foldl stepPlace place = place ++ names := by
  induction names generalizing place with
  | nil => exact (List.append_nil place).symm
  | cons name names ih =>
    rw [List.map_cons, List.foldl_cons, ih]
    exact List.append_assoc place [name] names

/-- A path with a file name leads to a place of that name. -/
theorem getLast?_writtenPlace (h : path.fileName? = some name) :
    (writtenPlace path).getLast? = some name := by
  unfold Path.fileName? at h
  split at h
  · next other hlast =>
    obtain rfl := Option.some.inj h
    obtain ⟨init, hinit⟩ := List.getLast?_eq_some_iff.1 hlast
    rw [writtenPlace_eq, hinit, List.foldl_append]
    exact List.getLast?_concat
  · cases h

/-- The place that is written in a path is made of names. -/
theorem isName_of_mem_writtenPlace (h : name ∈ writtenPlace path) : Path.IsName name := by
  have hparts (parts : List Path.Part) (place : Place) (hmem : name ∈ parts.foldl stepPlace place) :
      name ∈ place ∨ .name name ∈ parts := by
    -- One part after the other, for a place that has been reached already.
    induction parts generalizing place with
    | nil => exact .inl hmem
    | cons part parts ih =>
      rcases ih _ hmem with hplace | hpart
      · cases part with
        | root | here => exact .inl hplace
        | up => exact .inl (List.dropLast_subset _ hplace)
        | name other =>
          rcases List.mem_append.1 hplace with hplace | hplace
          · exact .inl hplace
          · exact .inr (List.mem_singleton.1 hplace ▸ List.mem_cons_self)
      · exact .inr (List.mem_cons_of_mem _ hpart)
  exact Path.isName_of_mem_parts ((hparts path.parts [] h).resolve_left List.not_mem_nil)

/-! ## Following paths

A path is followed by a recursion that can fail at every segment. The relation `Leads` leaves the
failures out: it has one rule for each kind of segment and is what the proofs do their inductions
on. -/

variable {disk after : Disk} {place start : Place} {segments : List String}

/-- Segments lead from a place to another one, through directories. -/
inductive Leads (disk : Disk) : Place → List String → Place → Prop
  | here (place : Place) : Leads disk place [] place
  | skip {start place : Place} {segment : String} {rest : List String}
    (hdirectory : disk.hasDirectory start = true) (hskip : Path.Part.ofSegment? segment = none)
    (hrest : Leads disk start rest place) : Leads disk start (segment :: rest) place
  | up {start place : Place} {rest : List String} (hdirectory : disk.hasDirectory start = true)
    (hrest : Leads disk start.dropLast rest place) : Leads disk start (".." :: rest) place
  | down {start place : Place} {segment : String} {rest : List String}
    (hdirectory : disk.hasDirectory start = true)
    (hname : Path.Part.ofSegment? segment = some (.name segment))
    (hsize : segment.utf8ByteSize ≤ maxNameSize) (hplace : disk.hasPlace (start ++ [segment]) = true)
    (hrest : Leads disk (start ++ [segment]) rest place) : Leads disk start (segment :: rest) place

/-- A segment is passed over, leads up, or is a name. -/
theorem ofSegment?_cases (segment : String) :
    (segment = "" ∨ segment = ".") ∧ Path.Part.ofSegment? segment = none
      ∨ segment = ".."
      ∨ ¬ (segment = "" ∨ segment = ".") ∧ segment ≠ ".."
        ∧ Path.Part.ofSegment? segment = some (.name segment) := by
  by_cases hskip : segment = "" ∨ segment = "."
  · exact .inl ⟨hskip, if_pos hskip⟩
  by_cases hup : segment = ".."
  · exact .inr (.inl hup)
  · refine .inr (.inr ⟨hskip, hup, ?_⟩)
    rw [Path.Part.ofSegment?, if_neg hskip, if_neg hup]

/-- Following segments succeeds at a place just if they lead there. -/
theorem follow_eq_ok_iff : disk.follow start segments = .ok place ↔ disk.Leads start segments place := by
  constructor
  · intro h
    -- The three kinds of segments are the three ways on.
    induction segments generalizing start with
    | nil =>
      obtain rfl := Except.ok.inj h
      exact .here start
    | cons segment rest ih =>
      rw [follow] at h
      split at h
      · cases h
      next hdirectory =>
      rw [Bool.not_eq_true', Bool.not_eq_false] at hdirectory
      rcases ofSegment?_cases segment with ⟨hskip, hpart⟩ | rfl | ⟨hcounts, hup, hname⟩
      · rw [if_pos hskip] at h
        exact .skip hdirectory hpart (ih h)
      · exact .up hdirectory (ih h)
      · rw [if_neg hcounts, if_neg hup] at h
        split at h
        · cases h
        next hsize =>
        split at h
        next hplace => exact .down hdirectory hname (Nat.le_of_not_lt hsize) hplace (ih h)
        next => cases h
  · intro h
    induction h with
    | here place => rfl
    | @skip start place segment rest hdirectory hskip _ ih =>
      rcases ofSegment?_cases segment with ⟨hskip, -⟩ | rfl | ⟨-, -, hname⟩
      · rw [follow, hdirectory, if_neg (by decide), if_pos hskip, ih]
      · cases hskip
      · rw [hskip] at hname
        cases hname
    | up hdirectory _ ih =>
      rw [follow, hdirectory, if_neg (by decide), if_neg (by decide), if_pos rfl, ih]
    | @down start place segment rest hdirectory hname hsize hplace _ ih =>
      rcases ofSegment?_cases segment with ⟨-, hskip⟩ | rfl | ⟨hcounts, hup, -⟩
      · rw [hskip] at hname
        cases hname
      · cases hname
      · rw [follow, hdirectory, if_neg (by decide), if_neg hcounts, if_neg hup,
          if_neg (Nat.not_lt.2 hsize), if_pos hplace, ih]

/-- A path that leads anywhere is not too long, and each of its segments leads on. -/
theorem locate_eq_ok_iff : disk.locate path = .ok place ↔
    ('\x00' ∉ path.text.toList ∧ path.text ≠ "" ∧ path.text.utf8ByteSize ≤ maxPathSize)
      ∧ disk.Leads [] path.segments place := by
  unfold locate
  by_cases hnul : path.text.toList.contains '\x00' = true
  · rw [if_pos hnul]
    exact iff_of_false nofun fun h => h.1.1 (by simpa using hnul)
  by_cases hempty : path.text.isEmpty = true
  · rw [if_neg hnul, if_pos hempty]
    exact iff_of_false nofun fun h => h.1.2.1 (by simpa using hempty)
  by_cases hlong : maxPathSize < path.text.utf8ByteSize
  · rw [if_neg hnul, if_neg hempty, if_pos hlong]
    exact iff_of_false nofun fun h => Nat.not_lt.2 h.1.2.2 hlong
  · rw [if_neg hnul, if_neg hempty, if_neg hlong, follow_eq_ok_iff]
    have hfits : '\x00' ∉ path.text.toList ∧ path.text ≠ "" ∧ path.text.utf8ByteSize ≤ maxPathSize :=
      ⟨by simpa using hnul, by simpa using hempty, Nat.le_of_not_lt hlong⟩
    exact ⟨fun h => ⟨hfits, h⟩, fun h => h.2⟩

/-- Nothing but a directory is left on the way. -/
theorem Leads.eq_or_hasDirectory (h : disk.Leads start segments place) :
    start = place ∨ disk.hasDirectory start = true := by
  cases h with
  | here => exact .inl rfl
  | skip hdirectory => exact .inr hdirectory
  | up hdirectory => exact .inr hdirectory
  | down hdirectory => exact .inr hdirectory

/-- The place that segments lead to is the one that is written in them. -/
theorem Leads.eq_foldl (h : disk.Leads start segments place) :
    place = (segments.filterMap Path.Part.ofSegment?).foldl stepPlace start := by
  induction h with
  | here place => rfl
  | skip _ hskip _ ih => rw [List.filterMap_cons_none hskip, ih]
  | up _ _ ih => exact ih
  | down _ hname _ _ _ ih => rw [List.filterMap_cons_some hname, ih]; rfl

/-- A path leads where it is written to lead, if anywhere. -/
theorem eq_writtenPlace_of_locate (h : disk.locate path = .ok place) : place = writtenPlace path := by
  rw [writtenPlace_eq, Path.parts, List.foldl_append, (locate_eq_ok_iff.1 h).2.eq_foldl]
  split
  · rfl
  · split <;> rfl

/-- A path is a directory if it leads to one. -/
theorem isDirectory_iff : disk.isDirectory path = true ↔
    ∃ place, disk.locate path = .ok place ∧ disk.hasDirectory place = true := by
  unfold isDirectory
  cases disk.locate path with
  | error reason => exact iff_of_false nofun fun ⟨_, h, _⟩ => nomatch h
  | ok place => simp [Except.toOption]

/-- A path is a file if it leads to one. -/
theorem isFile_iff : disk.isFile path = true ↔
    ∃ place, disk.locate path = .ok place ∧ (disk.fileAt? place).isSome = true := by
  unfold isFile
  cases disk.locate path with
  | error reason => exact iff_of_false nofun fun ⟨_, h, _⟩ => nomatch h
  | ok place => simp [Except.toOption]

/-- A path has the text of the file that it leads to. -/
theorem readText_eq_ok_iff {text : String} : disk.readText path = .ok text ↔
    ∃ place, disk.locate path = .ok place ∧ disk.fileAt? place = some (.text text) := by
  unfold readText
  cases disk.locate path with
  | error reason => exact iff_of_false nofun fun ⟨_, h, _⟩ => nomatch h
  | ok place =>
    dsimp only [bind, Except.bind]
    constructor
    · intro h
      split at h
      next hfile => exact ⟨place, rfl, Except.ok.inj h ▸ hfile⟩
      next => cases h
      next => cases h
    · rintro ⟨other, hother, hfile⟩
      obtain rfl := Except.ok.inj hother
      rw [hfile]

/-! ## Trees

On a disk that is a tree every file lies in directories and no file is one. A change of one file
keeps it a tree, since it touches no directory. -/

/-- Every file has a name and lies in a directory, and is none itself. -/
structure IsTree (disk : Disk) : Prop where
  names : ∀ file ∈ disk.files, ∀ name ∈ file.1, Path.IsName name
  parents : ∀ file ∈ disk.files, ∀ place ∈ Place.above file.1, disk.hasDirectory place = true
  directories : ∀ directory ∈ disk.directories, ∀ place ∈ Place.above directory,
    disk.hasDirectory place = true
  apart : ∀ file ∈ disk.files, disk.hasDirectory file.1 = false

instance (disk : Disk) : Decidable disk.IsTree :=
  decidable_of_iff
    ((∀ file ∈ disk.files, ∀ name ∈ file.1, Path.IsName name)
      ∧ (∀ file ∈ disk.files, ∀ place ∈ Place.above file.1, disk.hasDirectory place = true)
      ∧ (∀ directory ∈ disk.directories, ∀ place ∈ Place.above directory, disk.hasDirectory place = true)
      ∧ ∀ file ∈ disk.files, disk.hasDirectory file.1 = false)
    ⟨fun ⟨hnames, hparents, hdirectories, hapart⟩ => ⟨hnames, hparents, hdirectories, hapart⟩,
      fun h => ⟨h.names, h.parents, h.directories, h.apart⟩⟩

/-- A file that is found is one of the files of the disk. -/
theorem exists_file_of_isSome (h : (disk.fileAt? place).isSome) : ∃ file ∈ disk.files, file.1 = place := by
  obtain ⟨content, hcontent⟩ := Option.isSome_iff_exists.1 h
  obtain ⟨file, hfind, -⟩ := Option.map_eq_some_iff.1 hcontent
  exact ⟨file, List.mem_of_find?_eq_some hfind, by simpa using List.find?_some hfind⟩

/-- A directory is no file. -/
theorem IsTree.fileAt?_eq_none (htree : disk.IsTree) (hdirectory : disk.hasDirectory place = true) :
    disk.fileAt? place = none := by
  by_contra hsome
  obtain ⟨file, hmem, rfl⟩ := exists_file_of_isSome (Option.isSome_iff_ne_none.2 hsome)
  rw [htree.apart file hmem] at hdirectory
  cases hdirectory

/-- A place within which another one lies is above it. -/
theorem mem_above {place other : Place} (hwithin : other <+: place) (hne : other ≠ place) :
    other ∈ Place.above place := by
  refine List.mem_map.2 ⟨other.length, List.mem_range.2 ?_, (List.prefix_iff_eq_take.1 hwithin).symm⟩
  exact Nat.lt_of_le_of_ne hwithin.length_le fun hlength => hne (hwithin.eq_of_length hlength)

/-- **Two disks are the same but for the file at a place.** Directories may be new. -/
structure ChangesAt (disk after : Disk) (place : Place) : Prop where
  hasDirectory : ∀ {other}, disk.hasDirectory other = true → after.hasDirectory other = true
  notDirectory : after.hasDirectory place = false
  files : (after.files.filter fun file => file.1 != place)
    = disk.files.filter fun file => file.1 != place
  rules : IgnoreRules.ofDisk after = IgnoreRules.ofDisk disk

namespace ChangesAt

variable {changed : Place} (h : disk.ChangesAt after changed)

include h

/-- The place of the change was no directory before it, either. -/
theorem wasNotDirectory : disk.hasDirectory changed = false := by
  rw [← Bool.not_eq_true]
  intro hdirectory
  exact absurd (h.hasDirectory hdirectory) (by simp [h.notDirectory])

/-- At other places there is the file there was. -/
theorem fileAt? (hne : place ≠ changed) : after.fileAt? place = disk.fileAt? place := by
  have hsame (files : List (Place × FileContent)) : files.find? (fun file => file.1 == place)
      = (files.filter fun file => file.1 != changed).find? fun file => file.1 == place := by
    rw [List.find?_filter]
    congr 1
    funext file
    by_cases hplace : file.1 = place <;> simp [hplace, hne]
  show (after.files.find? fun file => file.1 == place).map _
    = (disk.files.find? fun file => file.1 == place).map _
  rw [hsame after.files, hsame disk.files, h.files]

/-- What was there at another place is there still. -/
theorem hasPlace (hne : place ≠ changed) (hplace : disk.hasPlace place = true) :
    after.hasPlace place = true := by
  rw [Disk.hasPlace, Bool.or_eq_true] at hplace ⊢
  rw [h.fileAt? hne]
  exact hplace.imp_left h.hasDirectory

/-- The way to another place goes through directories only, which are there still. -/
theorem leads (hleads : disk.Leads start segments place) (hne : place ≠ changed) :
    after.Leads start segments place := by
  induction hleads with
  | here place => exact .here place
  | skip hdirectory hskip _ ih => exact .skip (h.hasDirectory hdirectory) hskip (ih hne)
  | up hdirectory _ ih => exact .up (h.hasDirectory hdirectory) (ih hne)
  | @down start place segment rest hdirectory hname hsize hplace hrest ih =>
    have hway : start ++ [segment] ≠ changed := by
      rintro rfl
      -- The changed file is no directory, so the way would end there.
      rcases hrest.eq_or_hasDirectory with rfl | hdirectory
      · exact hne rfl
      · exact absurd hdirectory (by simp [h.wasNotDirectory])
    exact .down (h.hasDirectory hdirectory) hname hsize (h.hasPlace hway hplace) (ih hne)

/-- A path that led to another place leads there still. -/
theorem locate (hlocate : disk.locate path = .ok place) (hne : place ≠ changed) :
    after.locate path = .ok place := by
  rw [locate_eq_ok_iff] at hlocate ⊢
  exact ⟨hlocate.1, h.leads hlocate.2 hne⟩

/-- A text at another place is the same as before. -/
theorem readText {text : String} (hread : disk.readText path = .ok text)
    (hne : disk.locate path ≠ .ok changed) : after.readText path = .ok text := by
  obtain ⟨place, hlocate, hfile⟩ := readText_eq_ok_iff.1 hread
  have hplace : place ≠ changed := fun heq => hne (heq ▸ hlocate)
  exact readText_eq_ok_iff.2 ⟨place, h.locate hlocate hplace, (h.fileAt? hplace).trans hfile⟩

/-- A directory stays one. -/
theorem isDirectory (hdirectory : disk.isDirectory path = true) : after.isDirectory path = true := by
  obtain ⟨place, hlocate, hplace⟩ := isDirectory_iff.1 hdirectory
  have hne : place ≠ changed := by
    rintro rfl
    exact absurd hplace (by simp [h.wasNotDirectory])
  exact isDirectory_iff.2 ⟨place, h.locate hlocate hne, h.hasDirectory hplace⟩

/-- The names on the disk stay names if those of the place are. -/
theorem isName_of_mem (htree : disk.IsTree) (hnames : ∀ name ∈ changed, Path.IsName name) :
    ∀ file ∈ after.files, ∀ name ∈ file.1, Path.IsName name := by
  intro file hmem
  by_cases heq : file.1 = changed
  · exact heq ▸ hnames
  · have hother : file ∈ after.files.filter fun file => file.1 != changed :=
      List.mem_filter.2 ⟨hmem, by simpa using heq⟩
    rw [h.files] at hother
    exact htree.names file (List.mem_filter.1 hother).1

end ChangesAt

/-! ## Ignore rules

A walk asks for the rules in files with special names. A text file is none of these, and to make one
or take one away changes no rule. -/

/-- A place of a goal file. -/
def IsText (place : Place) : Prop := place.getLast?.bind (fun name => (Path.splitName name).2) = some "txt"

/-- A text file does not lie where a file with another ending is asked for. -/
theorem not_isSuffixOf_of_isText {last : String} (hplace : IsText place)
    (hlast : (Path.splitName last).2 ≠ some "txt") (hnames : names.getLast? = some last) :
    names.isSuffixOf place = false := by
  rw [← Bool.not_eq_true, List.isSuffixOf_iff_suffix]
  rintro ⟨front, rfl⟩
  obtain ⟨init, rfl⟩ := List.getLast?_eq_some_iff.1 hnames
  rw [IsText, ← List.append_assoc, List.getLast?_concat] at hplace
  exact hlast hplace

/-- Ignore files are not looked for among text files. -/
theorem filesOf_eq {last : String} (hplace : IsText place)
    (hlast : (Path.splitName last).2 ≠ some "txt") (hnames : names.getLast? = some last) (disk : Disk) :
    IgnoreRules.filesOf disk names
      = IgnoreRules.filesOf { disk with files := disk.files.filter fun file => file.1 != place } names := by
  unfold IgnoreRules.filesOf
  rw [List.filterMap_filter]
  refine List.filterMap_congr fun file _ => ?_
  by_cases heq : file.1 = place
  · simp [heq, not_isSuffixOf_of_isText hplace hlast hnames]
  · simp [heq]

/-- The top directory of a repository, from what marks it. -/
def markedBy? (place : Place) : Option Place :=
  if place.getLast?.any IgnoreRules.repositoryMarks.contains then some place.dropLast else none

/-- A place that does not end with a mark of a repository marks nothing. -/
theorem markedBy?_eq_none (h : ∀ mark ∈ IgnoreRules.repositoryMarks, place.getLast? ≠ some mark) :
    markedBy? place = none := by
  refine if_neg fun hmarked => ?_
  obtain ⟨name, hlast, hname⟩ := (Option.any_eq_true _ _).1 hmarked
  exact h name (List.contains_iff_mem.1 hname) hlast

/-- A text file marks no repository. -/
theorem markedBy?_of_isText (hplace : IsText place) : markedBy? place = none := by
  have hmarks : ∀ mark ∈ IgnoreRules.repositoryMarks, (Path.splitName mark).2 ≠ some "txt" := by decide
  refine markedBy?_eq_none fun mark hmark hlast => hmarks mark hmark ?_
  rw [IsText, hlast] at hplace
  exact hplace

/-- A place that is not hidden marks no repository. -/
theorem markedBy?_of_not_hidden (h : place.getLast?.any IgnoreRules.isHidden = false) :
    markedBy? place = none := by
  have hmarks : ∀ mark ∈ IgnoreRules.repositoryMarks, IgnoreRules.isHidden mark = true := by decide
  refine markedBy?_eq_none fun mark hmark hlast => ?_
  rw [hlast, Option.any_some, hmarks mark hmark] at h
  cases h

/-- Nor are the marks of repositories among text files, or among directories that are not hidden. -/
theorem rules_congr {fresh : List Place} (hplace : IsText place)
    (hfiles : (after.files.filter fun file => file.1 != place)
      = disk.files.filter fun file => file.1 != place)
    (hdirectories : after.directories = disk.directories ++ fresh)
    (hfresh : ∀ directory ∈ fresh, directory.getLast?.any IgnoreRules.isHidden = false) :
    IgnoreRules.ofDisk after = IgnoreRules.ofDisk disk := by
  -- Neither the ignore files nor the marks of a repository are texts of goals, so that the changed
  -- file is none of them.
  have hof {last : String} (names : List String) (hnames : names.getLast? = some last)
      (hlast : (Path.splitName last).2 ≠ some "txt") :
      IgnoreRules.filesOf after names = IgnoreRules.filesOf disk names := by
    rw [filesOf_eq hplace hlast hnames after, filesOf_eq hplace hlast hnames disk, hfiles]
    rfl
  have hrepositories : (IgnoreRules.ofDisk after).repositories = (IgnoreRules.ofDisk disk).repositories := by
    have hnone : fresh.filterMap markedBy? = [] :=
      List.filterMap_eq_nil_iff.2 fun directory hmem => markedBy?_of_not_hidden (hfresh directory hmem)
    have hmarks (disk : Disk) : (disk.files.map (·.1)).filterMap markedBy?
        = (disk.files.filter fun file => file.1 != place).filterMap fun file => markedBy? file.1 := by
      rw [List.filterMap_map, List.filterMap_filter]
      refine List.filterMap_congr fun file _ => ?_
      by_cases heq : file.1 = place
      · simp [heq, markedBy?_of_isText hplace]
      · simp [heq]
    show (after.directories ++ after.files.map (·.1)).filterMap markedBy?
      = (disk.directories ++ disk.files.map (·.1)).filterMap markedBy?
    rw [List.filterMap_append, List.filterMap_append, hdirectories, List.filterMap_append, hnone,
      List.append_nil, hmarks after, hmarks disk, hfiles]
  unfold IgnoreRules.ofDisk at hrepositories ⊢
  congr 1
  · exact hof _ rfl (by decide)
  · exact hof _ rfl (by decide)
  · exact hof _ rfl (by decide)

/-! ## Making, writing and taking away

The changes that are made to one file, each of them as a change at one place. Where a directory
stands no file is written, and a file that is made brings the directories above it. -/

/-- The directories are those of the disk and the root. -/
theorem hasDirectory_iff : disk.hasDirectory place = true ↔ place = [] ∨ place ∈ disk.directories := by
  rw [hasDirectory, Bool.or_eq_true, List.isEmpty_iff, List.contains_iff_mem]

/-- No place is above itself. -/
theorem not_mem_above_self (place : Place) : place ∉ Place.above place := by
  intro hmem
  obtain ⟨length, hlength, htake⟩ := List.mem_map.1 hmem
  have hlt := List.mem_range.1 hlength
  have heq := congrArg List.length htake
  rw [List.length_take] at heq
  omega

/-- **Making or writing a file changes no other one**, provided that it does not take the place of a
directory, and lies in none that is new and hidden. -/
theorem changesAt_write (hplace : IsText (writtenPlace path))
    (hnot : disk.hasDirectory (writtenPlace path) = false)
    (hfresh : ∀ directory ∈ Place.above (writtenPlace path), disk.hasDirectory directory = false →
      directory.getLast?.any IgnoreRules.isHidden = false) (content : FileContent) :
    disk.ChangesAt (disk.write path content) (writtenPlace path) := by
  have hfiles : ((disk.write path content).files.filter fun file => file.1 != writtenPlace path)
      = disk.files.filter fun file => file.1 != writtenPlace path := by
    simp [write, List.filter_append]
  refine ⟨fun {other} hother => ?_, ?_, hfiles, rules_congr hplace hfiles rfl fun directory hmem => ?_⟩
  · rw [hasDirectory_iff] at hother ⊢
    exact hother.imp_right fun hmem => List.mem_append_left _ hmem
  · -- New directories lie above the file.
    rw [← Bool.not_eq_true, hasDirectory_iff] at hnot ⊢
    rintro (hempty | hmem)
    · exact hnot (.inl hempty)
    rcases List.mem_append.1 hmem with hmem | hmem
    · exact hnot (.inr hmem)
    · exact not_mem_above_self _ (List.mem_of_mem_drop (List.mem_filter.1 hmem).1)
  · obtain ⟨habove, hnew⟩ := List.mem_filter.1 hmem
    exact hfresh directory (List.mem_of_mem_drop habove) (by simpa using hnew)

/-- Nothing lies below a file. -/
theorem IsTree.delete_eq (htree : disk.IsTree) (hfile : (disk.fileAt? (writtenPlace path)).isSome) :
    disk.delete path
      = { disk with files := disk.files.filter fun file => file.1 != writtenPlace path } := by
  obtain ⟨file, hmem, heq⟩ := exists_file_of_isSome hfile
  have hnot := htree.apart file hmem
  rw [heq, ← Bool.not_eq_true] at hnot
  have hbelow {other : Place} (hparents : ∀ place ∈ Place.above other, disk.hasDirectory place = true)
      (hne : writtenPlace path ≠ other) : ¬ (writtenPlace path).isPrefixOf other = true :=
    fun hwithin => hnot (hparents _ (mem_above (List.isPrefixOf_iff_prefix.1 hwithin) hne))
  unfold delete
  dsimp only
  congr 1
  · refine List.filter_congr fun other hother => ?_
    by_cases hsame : other.1 = writtenPlace path
    · simp [hsame, List.isPrefixOf_iff_prefix]
    · simp [hsame, hbelow (htree.parents other hother) (Ne.symm hsame)]
  · refine List.filter_eq_self.2 fun directory hdirectory => ?_
    have hne : writtenPlace path ≠ directory := by
      rintro rfl
      exact hnot (hasDirectory_iff.2 (.inr hdirectory))
    simp [hbelow (htree.directories directory hdirectory) hne]

/-- **Taking away a file changes no other one.** -/
theorem changesAt_delete (htree : disk.IsTree) (hplace : IsText (writtenPlace path))
    (hfile : (disk.fileAt? (writtenPlace path)).isSome) :
    disk.ChangesAt (disk.delete path) (writtenPlace path) := by
  obtain ⟨file, hmem, heq⟩ := exists_file_of_isSome hfile
  rw [htree.delete_eq hfile]
  have hfiles : ((disk.files.filter fun file => file.1 != writtenPlace path).filter fun file =>
      file.1 != writtenPlace path) = disk.files.filter fun file => file.1 != writtenPlace path := by
    simp [List.filter_filter]
  have hdirectories : disk.directories = disk.directories ++ [] := (List.append_nil _).symm
  exact ⟨id, heq ▸ htree.apart file hmem, hfiles,
    rules_congr hplace hfiles hdirectories (List.forall_mem_nil _)⟩

/-- Where a file was taken away there is none. -/
theorem fileAt?_delete (htree : disk.IsTree) (hfile : (disk.fileAt? (writtenPlace path)).isSome) :
    (disk.delete path).fileAt? (writtenPlace path) = none := by
  rw [htree.delete_eq hfile]
  simp [fileAt?]

end Disk

end StoryCheck
