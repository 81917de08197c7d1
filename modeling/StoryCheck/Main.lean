import StoryCheck.Project.Report
/-!
# The command line

`check` and a path: finds the project around the path, checks its goals and prints the reports. The
exit code tells whether there was an error.

The files of the project are read first and put into a `Disk`; everything else is a function of
that.
-/

namespace StoryCheck.CommandLine

/-- Puts the file at a path into a disk, if it can be read. -/
def addFile (disk : Disk) (path : Path) : IO Disk := do
  try
    let bytes ← IO.FS.readBinFile path.text
    match String.fromUTF8? bytes with
    | some text => return disk.write path (.text text)
    | none => return disk.write path (.binary bytes.toList)
  catch _ => return disk

/-- Puts a file or a directory with everything below it into a disk. -/
partial def addTree (disk : Disk) (path : Path) : IO Disk := do
  try
    let children ← ((← IO.currentDir) / path.text).readDir
    let mut disk := disk.makeDirectory path
    for child in children do
      disk ← addTree disk (path.join ⟨child.fileName⟩)
    return disk
  catch _ => addFile disk path

/-- Puts the manifests above a path into a disk, and the file at the path. -/
def addManifests (disk : Disk) (start : Path) : IO Disk := do
  let disk ← addFile disk start
  start.ancestors.foldlM (fun disk d => addFile disk (d.join ⟨Manifest.fileName⟩)) disk

/-- Puts a directory into a disk, if there is one at the path; its files are not looked at. -/
def addDirectory (disk : Disk) (path : Path) : IO Disk := do
  if ← ((← IO.currentDir) / path.text).isDir then return disk.makeDirectory path else return disk

/-- Puts what a directory says of the files to be left out below it into a disk. -/
def addIgnoreFiles (disk : Disk) (directory : Path) : IO Disk := do
  let marks := IgnoreRules.repositoryMarks.map fun mark => directory.join ⟨mark⟩
  let names := [IgnoreRules.plainNames, IgnoreRules.versionedNames, IgnoreRules.unversionedNames]
  let disk ← marks.foldlM addDirectory disk
  let disk ← marks.foldlM addFile disk
  names.foldlM (fun disk names => addFile disk (directory.join ⟨"/".intercalate names⟩)) disk

/-- Puts everything that a project is read from into a disk. -/
def addProject (disk : Disk) (project : Project) : IO Disk := do
  let disk ← addFile disk project.header
  let disk ← project.instances.toList.foldlM addFile disk
  let disk ← (project.goalDirectories.flatMap Path.ancestors).foldlM addIgnoreFiles disk
  project.goalDirectories.foldlM addTree disk

/-- Prints a failure. -/
def fail (message : String) : IO UInt32 := do
  IO.eprintln s!"Error: {message}"
  return 1

/-- Checks the project around a path. -/
def check (path : String) : IO UInt32 := do
  let start := Path.join ⟨(← IO.currentDir).toString⟩ ⟨path⟩
  let disk ← addManifests {} start
  match Project.load disk start with
  | .error failure => fail failure.message
  | .ok project =>
    let disk ← addProject disk project
    match project.check disk with
    | .error failure => fail failure.message
    | .ok story =>
      let report := CheckReport.ofStory disk story
      report.messages.forM fun message => IO.println message
      IO.println report.summary
      return if report.hasErrors then 1 else 0

end StoryCheck.CommandLine

/-- Runs the command that the arguments name. -/
def main (args : List String) : IO UInt32 :=
  match args.filter (· != "--no-color") with
  | ["check"] => StoryCheck.CommandLine.check "."
  | ["check", path] => StoryCheck.CommandLine.check path
  | _ => StoryCheck.CommandLine.fail "usage: check [PATH] [--no-color]"
