/-!
# Paths

A path is kept as it is written. For comparing, it counts as the sequence of its parts: repeated
slashes and single dots do not matter, except for a dot at the very start, and two dots are a part
like a name.
-/

namespace StoryCheck

/-- A path as it is written. -/
structure Path where
  text : String
deriving DecidableEq, Repr, Inhabited

namespace Path

/-- A part of a path. -/
inductive Part where
  | root
  /-- A single dot at the very start. -/
  | here
  | up
  | name (name : String)
deriving DecidableEq, Repr, Inhabited

/-! ## Segments -/

/-- Cuts a text at its slashes. -/
def cut : List Char → List Char × List (List Char)
  | [] => ([], [])
  | c :: cs =>
    let (segment, rest) := cut cs
    if c = '/' then ([], segment :: rest) else (c :: segment, rest)

/-- What stands between the slashes. -/
def segments (path : Path) : List String :=
  let (first, rest) := cut path.text.toList
  (first :: rest).map String.ofList

/-- Whether a path starts from the root. -/
def isAbsolute (path : Path) : Bool := path.text.toList.head? == some '/'

/-- The part that a segment is, if it counts. -/
def Part.ofSegment? (segment : String) : Option Part :=
  if segment = "" ∨ segment = "." then none
  else if segment = ".." then some .up
  else some (.name segment)

/-- The parts of a path. -/
def parts (path : Path) : List Part :=
  let segments := path.segments
  let start : List Part :=
    if path.isAbsolute then [.root] else if segments.head? = some "." then [.here] else []
  start ++ segments.filterMap Part.ofSegment?

/-! ## Comparing -/

/-- Whether two paths have the same parts. -/
def isSame (a b : Path) : Bool := a.parts == b.parts

/-- Whether the parts of a path start with those of another. -/
def isBelow (path directory : Path) : Bool := directory.parts.isPrefixOf path.parts

/-- Place of a kind of part in the order of parts. -/
def Part.rank : Part → Nat
  | root => 0
  | here => 1
  | up => 2
  | name _ => 3

/-- The order of parts; names come last, in their own order. -/
def Part.order : Part → Part → Ordering
  | name a, name b => compare a b
  | a, b => compare a.rank b.rank

/-- The order of sequences of parts, part by part; a shorter one comes before its continuations. -/
def orderParts : List Part → List Part → Ordering
  | [], [] => .eq
  | [], _ :: _ => .lt
  | _ :: _, [] => .gt
  | a :: as, b :: bs => (a.order b).then (orderParts as bs)

/-- The order of paths. -/
def order (a b : Path) : Ordering := orderParts a.parts b.parts

/-! ## Putting together and taking apart -/

/-- A path that is meant from a directory. An absolute path stays as it is. -/
def join (directory path : Path) : Path :=
  if path.isAbsolute then path
  else
    match directory.text.toList.getLast? with
    | none | some '/' => ⟨directory.text ++ path.text⟩
    | some _ => ⟨directory.text ++ "/" ++ path.text⟩

/-- Drops the segments at the end that do not count. -/
def trimSegments (segments : List String) : List String :=
  (segments.reverse.dropWhile fun s => s = "" ∨ s = ".").reverse

/-- The directory that a path lies in, by its writing. -/
def parent? (path : Path) : Option Path :=
  let segments := path.segments
  -- a slash or a dot at the very start counts
  let (start, body) : List String × List String :=
    if path.isAbsolute then ([""], segments.drop 1)
    else if segments.head? = some "." then (["."], segments.drop 1)
    else ([], segments)
  match trimSegments body with
  | [] => if start = ["."] then some ⟨""⟩ else none
  | last :: rest =>
    let above := trimSegments ((last :: rest).dropLast)
    if start = [""] ∧ above = [] then some ⟨"/"⟩
    else some ⟨"/".intercalate (start ++ above)⟩

/-- A path and the directories above it, at most `room` of them. -/
def ancestorsWithin : (room : Nat) → Path → List Path
  | 0, path => [path]
  | room + 1, path =>
    path :: match path.parent? with
      | some parent => ancestorsWithin room parent
      | none => []

/-- A path and all directories above it, the closest first. Each has fewer segments than the one
before it. -/
def ancestors (path : Path) : List Path := ancestorsWithin (path.segments.length + 1) path

/-! ## File names -/

/-- The name that a path ends with. -/
def fileName? (path : Path) : Option String :=
  match path.parts.getLast? with
  | some (.name name) => some name
  | _ => none

/-- The parts of a name in front of its last dot and behind it. A dot at the start does not
count. -/
def splitName (name : String) : String × Option String :=
  let cs := name.toList
  let behind := (cs.reverse.takeWhile (· ≠ '.')).reverse
  let front := cs.take (cs.length - behind.length - 1)
  if front.isEmpty then (name, none) else (String.ofList front, some (String.ofList behind))

/-- The name that a path ends with, without the extension. -/
def stem? (path : Path) : Option String := path.fileName?.map fun name => (splitName name).1

/-- The extension of the name that a path ends with. -/
def extension? (path : Path) : Option String := path.fileName?.bind fun name => (splitName name).2

end Path

end StoryCheck
