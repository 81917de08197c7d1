import StoryCheck.Project.Disk
import StoryCheck.Project.IgnoreFile
/-!
# Walking directories

The files below a directory, without those that are hidden or that ignore files leave out. Nothing
below a directory that is left out is found.

Three kinds of ignore files count, each below the directory it belongs to. Where several speak of a
path, the kind comes first, and in a kind the closest directory:

* `.ignore`;
* `.gitignore`, only inside a repository and not beyond its top directory;
* `info/exclude` of a repository.

The walk stands in for a general library of directory walks with its usual filters. What it leaves
out are links, the ignore file of a user, and the order of the walk, since goal files are sorted anyway.
-/

namespace StoryCheck

/-- The ignore files of a disk, each with the directory it belongs to. -/
structure IgnoreRules where
  plain : List (Place × IgnoreFile)
  /-- Those that are kept in a repository. -/
  versioned : List (Place × IgnoreFile)
  /-- Those that belong to a repository but are not kept in it. -/
  unversioned : List (Place × IgnoreFile)
  /-- Top directories of repositories. -/
  repositories : List Place
deriving Repr, Inhabited

namespace IgnoreRules

/-! ## Finding ignore files -/

/-- Where a plain ignore file lies, from the directory it belongs to. -/
def plainNames : List String := [".ignore"]

/-- Where an ignore file lies that is kept in a repository. -/
def versionedNames : List String := [".gitignore"]

/-- Where an ignore file lies that belongs to a repository but is not kept in it. -/
def unversionedNames : List String := [".git", "info", "exclude"]

/-- What marks the top directory of a repository. -/
def repositoryMarks : List String := [".git", ".jj"]

/-- The ignore files that lie where some names lead. -/
def filesOf (disk : Disk) (names : List String) : List (Place × IgnoreFile) :=
  disk.files.filterMap fun (place, content) =>
    if names.isSuffixOf place then
      some (place.take (place.length - names.length), .ofLines content.lines)
    else
      none

/-- The ignore files of a disk. -/
def ofDisk (disk : Disk) : IgnoreRules :=
  { plain := filesOf disk plainNames
    versioned := filesOf disk versionedNames
    unversioned := filesOf disk unversionedNames
    repositories :=
      (disk.directories ++ disk.files.map (·.1)).filterMap fun place =>
        if place.getLast?.any repositoryMarks.contains then some place.dropLast else none }

/-- Whether all ignore files of the directories on the way to a place are well-formed. -/
def isWellFormedAbove (rules : IgnoreRules) (place : Place) : Bool :=
  (rules.plain ++ rules.versioned ++ rules.unversioned).all fun (directory, file) =>
    file.isWellFormed || !(Place.above place).contains directory

/-! ## Asking them -/

/-- What ignore files of one kind say of a place, those of the first directory that has a say. -/
def verdictOf? (files : List (Place × IgnoreFile)) (directories : List Place) (place : Place)
    (isDirectory : Bool) : Option Verdict :=
  directories.findSome? fun directory =>
    (files.find? fun (d, _) => d == directory).bind fun (_, file) =>
      let path := "/".intercalate (place.drop directory.length)
      file.verdict? isDirectory path.toUTF8.toList

/-- Those of some directories that lie in a repository; the closest come first. -/
def inRepository (rules : IgnoreRules) (directories : List Place) : List Place :=
  match directories.span fun directory => !rules.repositories.contains directory with
  | (_, []) => []
  | (inner, top :: _) => inner ++ [top]

/-- What the ignore files say of a place. -/
def verdict? (rules : IgnoreRules) (place : Place) (isDirectory : Bool) : Option Verdict :=
  let directories := (Place.above place).reverse
  let inside := rules.inRepository directories
  verdictOf? rules.plain directories place isDirectory
    <|> verdictOf? rules.versioned inside place isDirectory
    <|> verdictOf? rules.unversioned inside place isDirectory

/-- Whether a name is hidden. -/
def isHidden (name : String) : Bool := name.toList.head? == some '.'

/-- Whether a place is left out. Where no ignore file has a say, hidden names are. -/
def leavesOut (rules : IgnoreRules) (place : Place) (isDirectory : Bool) : Bool :=
  match rules.verdict? place isDirectory with
  | some verdict => verdict = .leftOut
  | none => place.getLast?.any isHidden

end IgnoreRules

/-! ## Walking -/

/-- Why the files below a directory cannot be found. -/
inductive WalkError where
  | unreadable (reason : ReadError)
  /-- An ignore file above the directory is not well-formed. -/
  | badIgnoreFile
deriving DecidableEq, Repr, Inhabited

/-- How a message speaks of the reason. -/
def WalkError.message (directory : Path) : WalkError → String
  | unreadable reason => s!"IO error for operation on {directory.text}: {reason.message}"
  | badIgnoreFile => "walk error"

namespace Disk

/-- Whether a walk from a directory comes to a file: nothing on the way is left out. -/
def walkReaches (rules : IgnoreRules) (top file : Place) : Bool :=
  top.isPrefixOf file && top.length < file.length
    && (((Place.above file).drop (top.length + 1)).all fun directory =>
      !rules.leavesOut directory true)
    && !rules.leavesOut file false

/-- The files below a directory, without those that are left out by the rules of this library. A path
to a file stands for that file. -/
def filesBelow (disk : Disk) (directory : Path) : Except WalkError (List Path) :=
  match disk.locate directory with
  | .error reason => .error (.unreadable reason)
  | .ok top =>
    let rules := IgnoreRules.ofDisk disk
    if (disk.fileAt? top).isSome then .ok [directory]
    else if !rules.isWellFormedAbove top then .error .badIgnoreFile
    else
      .ok ((disk.files.filter fun (file, _) => walkReaches rules top file).map fun (file, _) =>
        directory.join ⟨"/".intercalate (file.drop top.length)⟩)

end Disk

end StoryCheck
