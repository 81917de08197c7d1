/-!
# Globs

A glob is a pattern of paths. It sees a path as the bytes of its UTF-8 form: what stands for one
byte only does not stand for a character that takes several.

Matching goes through the glob from left to right and keeps all ends of the text that may be left.
-/

namespace StoryCheck

/-- A set of bytes: those in some ranges, or all others. -/
structure ByteSet where
  ranges : List (UInt8 × UInt8)
  isNegated : Bool := false
deriving DecidableEq, Repr, Inhabited

namespace ByteSet

/-- Whether a byte is in a set. -/
def contains (set : ByteSet) (b : UInt8) : Bool :=
  set.ranges.any (fun (low, high) => low ≤ b && b ≤ high) != set.isNegated

/-- The set of one byte. -/
def single (b : UInt8) : ByteSet := { ranges := [(b, b)] }

/-- All bytes. -/
def all : ByteSet := { ranges := [], isNegated := true }

/-- The byte that stands between the names in a path. -/
def slash : UInt8 := 47

/-- All bytes but the slash. -/
def inName : ByteSet := { ranges := [(slash, slash)], isNegated := true }

/-- What may be left of a text behind any number of bytes of a set at its start. -/
def restsOfMany (set : ByteSet) : List UInt8 → List (List UInt8)
  | [] => [[]]
  | b :: text => (b :: text) :: if set.contains b then restsOfMany set text else []

end ByteSet

/-- A pattern of texts. -/
inductive Glob where
  /-- The empty text. -/
  | empty
  /-- One byte of a set. -/
  | one (set : ByteSet)
  /-- Any number of bytes of a set. -/
  | many (set : ByteSet)
  | append (first second : Glob)
  | either (left right : Glob)
deriving DecidableEq, Repr, Inhabited

namespace Glob

/-! ## Matching -/

/-- What may be left of a text behind a part at its start that the glob matches. -/
def rests : Glob → List UInt8 → List (List UInt8)
  | empty, text => [text]
  | one _, [] => []
  | one set, b :: text => if set.contains b then [text] else []
  | many set, text => set.restsOfMany text
  | append first second, text =>
    ((first.rests text).flatMap fun rest => second.rests rest).eraseDups
  | either left right, text => (left.rests text ++ right.rests text).eraseDups

/-- Whether a glob matches a whole text. -/
def isMatch (glob : Glob) (text : List UInt8) : Bool := (glob.rests text).contains []

/-! ## Making globs -/

/-- One glob behind another; the empty one does not show. -/
def andThen : Glob → Glob → Glob
  | empty, second => second
  | first, empty => first
  | first, second => append first second

/-- The texts that some globs match one behind another. -/
def ofParts (parts : List Glob) : Glob := parts.foldl andThen empty

/-- The texts that one of some globs matches. Those that are empty do not count; without any other
the text is empty. -/
def ofAlternatives (globs : List Glob) : Glob :=
  match globs.filter (· != empty) with
  | [] => empty
  | first :: rest => rest.foldl either first

/-- The text of some bytes. -/
def ofBytes (bytes : List UInt8) : Glob := ofParts (bytes.map fun b => one (.single b))

/-- The text of one character. -/
def ofChar (c : Char) : Glob := ofBytes (String.utf8EncodeChar c)

/-- A slash. -/
def slash : Glob := one (.single ByteSet.slash)

/-- Any text. -/
def anything : Glob := many .all

/-- Any directories in front of a name, or none. -/
def directoriesBefore : Glob := either (either empty slash) (append anything slash)

/-- Everything below a directory. -/
def everythingBelow : Glob := append slash anything

/-- The way from a directory to a name, with any directories between them or none. -/
def directoriesBetween : Glob := either slash (append slash (append anything slash))

end Glob

end StoryCheck
