import StoryCheck.Project.Path
import StoryCheck.Story.Source
/-!
# Files and directories

The files that a project is read from, as a value: every file with its content, and every
directory. Relative paths are meant from the top directory. A path is followed segment by segment,
so that it leads nowhere if it goes through a directory that does not exist, even if two dots lead
out again.
-/

namespace StoryCheck

/-- What is in a file. -/
inductive FileContent where
  | text (text : String)
  /-- Bytes that are not the UTF-8 form of a text. -/
  | binary (bytes : List UInt8)
deriving DecidableEq, Repr, Inhabited

namespace FileContent

/-- The bytes of a file. -/
def bytes : FileContent → List UInt8
  | .text string => string.toUTF8.toList
  | .binary bytes => bytes

/-- Cuts bytes into lines. The end of a line does not belong to it, with or without a carriage
return; behind the last one there is no other line. -/
def cutLines : (line : List UInt8) → List UInt8 → List (List UInt8)
  | line, [] => if line.isEmpty then [] else [line.reverse]
  | line, b :: rest =>
    if b = 10 then
      let line := if line.head? = some 13 then line.drop 1 else line
      line.reverse :: cutLines [] rest
    else
      cutLines (b :: line) rest

/-- Those of some lines that stand in front of the first one that is not text. -/
def textLines : List (List UInt8) → List (List Char)
  | [] => []
  | line :: rest =>
    match String.fromUTF8? ⟨line.toArray⟩ with
    | some string => string.toList :: textLines rest
    | none => []

/-- The lines of a file up to the first one that is not text. -/
def lines (content : FileContent) : List (List Char) := textLines (cutLines [] content.bytes)

end FileContent

/-- The names that lead from the top directory to a file or directory. -/
abbrev Place := List String

namespace Place

/-- The directories on the way to a place, from the top directory on. -/
def above (place : Place) : List Place :=
  (List.range place.length).map fun n => place.take n

end Place

/-- Files and directories. The directory of everything in it is in it too, apart from the top
directory, which always exists. -/
structure Disk where
  files : List (Place × FileContent) := []
  directories : List Place := []
deriving DecidableEq, Repr, Inhabited

namespace Disk

/-- The file at a place. -/
def fileAt? (disk : Disk) (place : Place) : Option FileContent :=
  (disk.files.find? fun (p, _) => p == place).map (·.2)

/-- Whether there is a directory at a place. -/
def hasDirectory (disk : Disk) (place : Place) : Bool :=
  place.isEmpty || disk.directories.contains place

/-- Whether there is anything at a place. -/
def hasPlace (disk : Disk) (place : Place) : Bool :=
  disk.hasDirectory place || (disk.fileAt? place).isSome

/-! ## Following paths -/

/-- How many bytes a name may have. -/
def maxNameSize : Nat := 255

/-- How many bytes a path may have. -/
def maxPathSize : Nat := 4095

/-- Where segments lead from a place. -/
def follow (disk : Disk) : (place : Place) → (segments : List String) → Except ReadError Place
  | place, [] => .ok place
  | place, segment :: rest =>
    if !disk.hasDirectory place then .error .notDirectory
    else if segment = "" ∨ segment = "." then follow disk place rest
    else if segment = ".." then follow disk place.dropLast rest
    else if maxNameSize < segment.utf8ByteSize then .error .nameTooLong
    else if disk.hasPlace (place ++ [segment]) then follow disk (place ++ [segment]) rest
    else .error .noSuchFile

/-- Where a path leads. -/
def locate (disk : Disk) (path : Path) : Except ReadError Place :=
  if path.text.toList.contains '\x00' then .error .nulInName
  else if path.text.isEmpty then .error .noSuchFile
  else if maxPathSize < path.text.utf8ByteSize then .error .nameTooLong
  else disk.follow [] path.segments

/-- Whether there is anything at a path. -/
def exists? (disk : Disk) (path : Path) : Bool := (disk.locate path).toOption.isSome

/-- Whether there is a directory at a path. -/
def isDirectory (disk : Disk) (path : Path) : Bool :=
  (disk.locate path).toOption.any disk.hasDirectory

/-- Whether there is a file at a path. -/
def isFile (disk : Disk) (path : Path) : Bool :=
  (disk.locate path).toOption.any fun place => (disk.fileAt? place).isSome

/-- The text of the file at a path. -/
def readText (disk : Disk) (path : Path) : Except ReadError String := do
  let place ← disk.locate path
  match disk.fileAt? place with
  | some (.text text) => .ok text
  | some (.binary _) => .error .notText
  | none => .error .isDirectory

/-! ## Changing -/

/-- Where a path leads by its writing alone. -/
def writtenPlace (path : Path) : Place :=
  path.parts.foldl
    (fun place part => match part with
      | .root | .here => place
      | .up => place.dropLast
      | .name name => place ++ [name])
    []

/-- Makes a directory and all that it lies in. -/
def makeDirectory (disk : Disk) (path : Path) : Disk :=
  let place := writtenPlace path
  let fresh := ((Place.above place).drop 1 ++ [place]).filter fun p => !disk.hasDirectory p
  { disk with directories := disk.directories ++ fresh }

/-- Puts a file at a path, with all directories that it lies in. -/
def write (disk : Disk) (path : Path) (content : FileContent) : Disk :=
  let place := writtenPlace path
  let fresh := ((Place.above place).drop 1).filter fun p => !disk.hasDirectory p
  { files := (disk.files.filter fun (p, _) => p != place) ++ [(place, content)]
    directories := disk.directories ++ fresh }

/-- Takes away what is at a path, with all that lies below it. -/
def delete (disk : Disk) (path : Path) : Disk :=
  let place := writtenPlace path
  { files := disk.files.filter fun (p, _) => !place.isPrefixOf p
    directories := disk.directories.filter fun p => !place.isPrefixOf p }

end Disk

end StoryCheck
