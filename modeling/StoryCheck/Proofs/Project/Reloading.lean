import StoryCheck.Project.Change
import StoryCheck.Proofs.Project.Parents
import StoryCheck.Proofs.Project.ReadInputs
import StoryCheck.Proofs.Project.Readers

/-!
# Reloading after a change

A project is found again from its own directory, where its manifest still lies after a change of a
goal file. So the story of the project can be loaded anew.

* **`load_of_changesAt`** — the project is found again.
* **`reload_of_changesAt`** — and loaded anew.
-/

namespace StoryCheck

open Disk

namespace Project

variable {disk after : Disk} {path origin manifestPath : Path} {changed : Place} {project : Project}
  {text : String} {read? : String → Option Manifest}

/-! ## Finding a project

By any reader of manifests: all that matters here is where the manifest lies and that its text stays. -/

/-- Where the manifest lies in a directory. -/
def manifestIn (directory : Path) : Path := directory.join ⟨Manifest.fileName⟩

theorem manifestIn_eq (directory : Path) :
    manifestIn directory = directory.join (.ofNames [Manifest.fileName]) := by
  rw [Path.ofNames_singleton, manifestIn]

theorem isName_fileName : Path.IsName Manifest.fileName := by decide

theorem findManifest?_eq (disk : Disk) (origin : Path) : findManifest? disk origin
    = (startDirectory? disk origin).bind fun d => (d.ancestors.map manifestIn).find? disk.exists? := rfl

/-- A project is found by a manifest that can be read, below a directory. -/
theorem exists_of_load (hload : loadBy read? disk origin = .ok project) :
    ∃ (directory : Path) (text : String) (manifest : Manifest), disk.readText (manifestIn directory) = .ok text
      ∧ read? text = some manifest ∧ project = ofManifest (manifestIn directory) manifest := by
  obtain ⟨manifestPath, text, manifest, hfind, htext, hmanifest, rfl⟩ := loadBy_eq_ok_iff.1 hload
  rw [findManifest?_eq] at hfind
  obtain ⟨directory, -, hancestor⟩ := Option.bind_eq_some_iff.1 hfind
  obtain ⟨ancestor, -, rfl⟩ := List.mem_map.1 (List.mem_of_find?_eq_some hancestor)
  exact ⟨ancestor, text, manifest, htext, hmanifest, rfl⟩

/-- A project is found at once in a directory that holds its manifest. -/
theorem load_of_readText {directory : Path} {manifest : Manifest}
    (hfile : disk.isFile directory = false)
    (htext : disk.readText (manifestIn directory) = .ok text) (hmanifest : read? text = some manifest) :
    loadBy read? disk directory = .ok (ofManifest (manifestIn directory) manifest) := by
  have hexists : disk.exists? (manifestIn directory) = true := by
    unfold Disk.readText at htext
    unfold Disk.exists?
    cases hlocate : disk.locate (manifestIn directory) with
    | error reason =>
      rw [hlocate] at htext
      cases htext
    | ok place => rfl
  have hstart : startDirectory? disk directory = some directory := by
    rw [startDirectory?, hfile]
    rfl
  have hfind : findManifest? disk directory = some (manifestIn directory) := by
    rw [findManifest?_eq, hstart, Option.bind_some, Path.ancestors, Path.ancestorsWithin, List.map_cons,
      List.find?_cons_of_pos hexists]
  exact loadBy_eq_ok_iff.2 ⟨_, text, manifest, hfind, htext, hmanifest, rfl⟩

theorem exists_endsWith_manifestIn (directory : Path) :
    ∃ start body, (manifestIn directory).EndsWith start body Manifest.fileName := by
  rw [manifestIn_eq]
  exact Path.exists_endsWith_join directory isName_fileName

/-- The manifest is put together from the directory of its project. -/
theorem manifestIn_root {directory : Path} {start body : List String}
    (hends : (manifestIn directory).EndsWith start body Manifest.fileName) (manifest : Manifest) :
    manifestIn (ofManifest (manifestIn directory) manifest).root
      = Path.again start body Manifest.fileName := by
  have hroot : (ofManifest (manifestIn directory) manifest).root
      = ((manifestIn directory).parent?).getD ⟨""⟩ := rfl
  rw [manifestIn_eq, hroot, Path.parent?_of_endsWith hends, Option.getD_some, Path.again]

/-- Only the directory of a manifest matters to its project. -/
theorem ofManifest_congr {first second : Path} (h : first.parent? = second.parent?)
    (manifest : Manifest) :
    ofManifest first manifest = { ofManifest second manifest with manifestPath := first } := by
  unfold ofManifest
  rw [h]

/-- A manifest lies in a directory. -/
theorem isFile_of_manifestIn (htree : disk.IsTree) {directory : Path} {place : Place}
    (hlocate : disk.locate (manifestIn directory) = .ok place)
    (hfile : (disk.fileAt? place).isSome = true) (hchange : disk.ChangesAt after changed) :
    after.isFile directory = false := by
  have hplace : place = writtenPlace directory ++ [Manifest.fileName] := by
    have hsingle : ∀ name ∈ [Manifest.fileName], Path.IsName name := fun name hmem =>
      List.mem_singleton.1 hmem ▸ isName_fileName
    rw [eq_writtenPlace_of_locate hlocate, manifestIn_eq, writtenPlace_eq,
      Path.parts_join_ofNames (List.cons_ne_nil _ _) hsingle, List.foldl_append, foldl_stepPlace_names]
    rfl
  have hdirectory : disk.hasDirectory (writtenPlace directory) = true := by
    obtain ⟨file, hmem, rfl⟩ := exists_file_of_isSome hfile
    refine htree.parents file hmem _ ?_
    rw [hplace]
    exact mem_above (List.prefix_append _ _) (by simp)
  rw [← Bool.not_eq_true, isFile_iff]
  rintro ⟨other, hother, hsome⟩
  obtain rfl := eq_writtenPlace_of_locate hother
  have hne : writtenPlace directory ≠ changed := by
    intro heq
    rw [heq, hchange.wasNotDirectory] at hdirectory
    cases hdirectory
  rw [hchange.fileAt? hne, htree.fileAt?_eq_none hdirectory] at hsome
  cases hsome

/-- **A project is found again** from its own directory. -/
theorem load_of_changesAt (hchange : disk.ChangesAt after changed) (htree : disk.IsTree)
    (hname : changed.getLast? ≠ some Manifest.fileName)
    (hload : loadBy read? disk origin = .ok project) :
    ∃ manifestPath, loadBy read? after project.root = .ok { project with manifestPath } := by
  obtain ⟨directory, text, manifest, htext, hmanifest, rfl⟩ := exists_of_load hload
  obtain ⟨start, body, hends⟩ := exists_endsWith_manifestIn directory
  obtain ⟨place, hlocate, hfile⟩ := readText_eq_ok_iff.1 htext
  -- The root may be written otherwise than the directory in which the manifest was found.
  have hagain := manifestIn_root hends manifest
  have hlocateAgain : disk.locate (manifestIn (ofManifest (manifestIn directory) manifest).root)
      = .ok place := by
    rw [hagain]
    exact locate_again hends hlocate
  have hplace : place.getLast? = some Manifest.fileName := by
    rw [eq_writtenPlace_of_locate hlocate, manifestIn_eq]
    exact getLast?_writtenPlace (Path.fileName?_join_ofNames directory [] fun other hmem =>
      List.mem_singleton.1 hmem ▸ isName_fileName)
  have hne : disk.locate (manifestIn (ofManifest (manifestIn directory) manifest).root)
      ≠ .ok changed := by
    rw [hlocateAgain]
    rintro heq
    obtain rfl := Except.ok.inj heq
    exact hname hplace
  have hread := hchange.readText (readText_eq_ok_iff.2 ⟨place, hlocateAgain, hfile⟩) hne
  have hfree := isFile_of_manifestIn htree hlocateAgain (by rw [hfile]; rfl) hchange
  refine ⟨manifestIn (ofManifest (manifestIn directory) manifest).root, ?_⟩
  rw [load_of_readText hfree hread hmanifest]
  refine congrArg Except.ok (ofManifest_congr ?_ manifest)
  rw [hagain, Path.parent?_again hends]

/-- **Its story can be loaded anew** from what is read then. -/
theorem reload_of_changesAt {inputs : StoryInputs} (hchange : disk.ChangesAt after changed)
    (htree : disk.IsTree) (hname : changed.getLast? ≠ some Manifest.fileName)
    (hload : Project.load disk origin = .ok project) (hinputs : project.inputs after = .ok inputs) :
    ∃ manifestPath, project.reload after
      = { project := { project with manifestPath }, requests := .ok [.loadStory inputs] } := by
  rw [load_eq] at hload
  obtain ⟨manifestPath, hagain⟩ := load_of_changesAt hchange htree hname hload
  rw [← load_eq] at hagain
  -- What is read does not depend on how the path of the manifest is written.
  have hsame : ({ project with manifestPath } : Project).inputs after = .ok inputs := hinputs
  refine ⟨manifestPath, ?_⟩
  rw [reload, hagain]
  simp only [hsame]

end Project

end StoryCheck
