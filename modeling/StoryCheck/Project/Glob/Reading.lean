import StoryCheck.Project.Glob
/-!
# Globs as they are written

A question mark stands for one byte and a star for any number of them, in a name. Two stars alone
between slashes stand for any directories. Brackets hold a set, of which only the closing one has
to come; without it the opening one stands for itself. Braces hold alternatives between commas. A
backslash takes the meaning from the character behind it.
-/

namespace StoryCheck.Glob

/-! ## Sets -/

/-- What begins with an opening bracket. -/
inductive SetReading where
  | set (set : ByteSet) (rest : List Char)
  /-- A range goes down. -/
  | badRange
  /-- The closing bracket is missing. -/
  | unclosed
deriving Repr, Inhabited

/-- The bytes of the characters from one to another. The bytes of each character count one by one,
only between the last byte of the first and the first byte of the last there is a range. -/
def byteRanges (first last : Char) : List (UInt8 × UInt8) :=
  let singles (bytes : List UInt8) : List (UInt8 × UInt8) := bytes.map fun b => (b, b)
  let low := String.utf8EncodeChar first
  let high := String.utf8EncodeChar last
  if first = last then singles low
  else
    let between : List (UInt8 × UInt8) :=
      match low.getLast?, high.head? with
      | some a, some b => [(a, b)]
      | _, _ => []
    singles low.dropLast ++ between ++ singles (high.drop 1)

/-- The rest of a set. The ranges stand last first, and `inRange` says that the last one gets
another end. A closing bracket or a line at the start stands for itself. -/
def readRanges (isNegated : Bool) : (atStart inRange : Bool) → (ranges : List (Char × Char)) →
    List Char → SetReading
  | _, _, _, [] => .unclosed
  | atStart, inRange, ranges, c :: rest =>
    if c = ']' ∧ ¬atStart then
      let ranges := if inRange then ('-', '-') :: ranges else ranges
      .set { ranges := ranges.flatMap fun (a, b) => byteRanges a b, isNegated } rest
    else if c = '-' ∧ ¬atStart ∧ ¬inRange then
      readRanges isNegated false true ranges rest
    else
      match inRange, ranges with
      | true, (first, _) :: ranges =>
        if c < first then .badRange
        else readRanges isNegated false false ((first, c) :: ranges) rest
      | _, ranges => readRanges isNegated false false ((c, c) :: ranges) rest

/-- A set behind the opening bracket. -/
def readSet : List Char → SetReading
  | '!' :: rest => readRanges true true false [] rest
  | '^' :: rest => readRanges true true false [] rest
  | rest => readRanges false true false [] rest

/-! ## Drafts -/

/-- A part of a glob. Two stars between slashes are kept apart, because they swallow others that
follow. -/
inductive Part where
  | starsBefore
  | starsBehind
  | other (glob : Glob)
deriving Repr, Inhabited

/-- What a part matches. -/
def Part.toGlob : Part → Glob
  | starsBefore => directoriesBefore
  | starsBehind => everythingBelow
  | other glob => glob

/-- Braces that are not closed yet. -/
structure OpenGroup where
  /-- The parts in front of the brace, the last one first. -/
  before : List Part
  /-- The alternatives in front of the current one. -/
  alternatives : List Glob
deriving Repr, Inhabited

/-- A glob as far as it was read. -/
structure Draft where
  /-- The parts of the current alternative, the last one first. -/
  parts : List Part := []
  /-- The innermost group comes first. -/
  groups : List OpenGroup := []
  /-- Whether opening brackets stand for themselves, since one of them is not closed. -/
  isBracketPlain : Bool := false
deriving Repr, Inhabited

namespace Draft

/-- Adds a part. -/
def push (draft : Draft) (glob : Glob) : Draft :=
  { draft with parts := .other glob :: draft.parts }

/-- Puts two stars in the place of the slash in front of them. If there are two stars already, they
stay. -/
def replaceSlash (draft : Draft) (stars : Part) : Draft :=
  match draft.parts with
  | .starsBefore :: _ | .starsBehind :: _ => draft
  | parts => { draft with parts := stars :: parts.drop 1 }

/-- What the current alternative matches. -/
def alternative (draft : Draft) : Glob := ofParts (draft.parts.reverse.map Part.toGlob)

/-- Goes on behind an opening brace. -/
def openGroup (draft : Draft) : Draft :=
  { draft with parts := [], groups := { before := draft.parts, alternatives := [] } :: draft.groups }

/-- Goes on behind a comma, which stands for itself outside of braces. -/
def nextAlternative (draft : Draft) : Draft :=
  match draft.groups with
  | [] => draft.push (ofChar ',')
  | group :: groups =>
    let group := { group with alternatives := group.alternatives ++ [draft.alternative] }
    { draft with parts := [], groups := group :: groups }

/-- Goes on behind a closing brace. -/
def closeGroup? (draft : Draft) : Option Draft :=
  match draft.groups with
  | [] => none
  | group :: groups =>
    let glob := ofAlternatives (group.alternatives ++ [draft.alternative])
    some { draft with parts := .other glob :: group.before, groups }

/-- The glob, if all braces are closed. Two stars alone match everything. -/
def finish? (draft : Draft) : Option Glob :=
  match draft.groups, draft.parts with
  | [], [.starsBefore] => some anything
  | [], _ => some draft.alternative
  | _ :: _, _ => none

/-- Goes on behind two stars that `before` stands in front of, with the rest of the text and the
character in front of that. -/
def readStars (draft : Draft) (before : Option Char) (rest : List Char) :
    Draft × Char × List Char :=
  let plain := (draft.push (many .inName)).push (many .inName)
  let isInGroup := !draft.groups.isEmpty
  if draft.parts.isEmpty then
    let stars := { draft with parts := [.starsBefore] }
    match rest with
    | [] => (stars, '*', [])
    | '/' :: rest => (stars, '/', rest)
    | rest => (plain, '*', rest)
  else if before ≠ some '/' ∧ ¬(isInGroup ∧ (before = some ',' ∨ before = some '\x7b')) then
    (plain, '*', rest)
  else
    match rest with
    | [] => (draft.replaceSlash .starsBehind, '*', [])
    | '/' :: rest => (draft.replaceSlash (.other directoriesBetween), '/', rest)
    | c :: rest =>
      if isInGroup ∧ (c = ',' ∨ c = '\x7d') then
        (draft.replaceSlash .starsBehind, '*', c :: rest)
      else
        (plain, '*', c :: rest)

end Draft

/-! ## Reading -/

/-- Reads the rest of a glob, of which there are no more signs than characters (`room`). The
character in front of it is `before`. -/
def readFrom : (room : Nat) → Draft → (before : Option Char) → List Char → Option Glob
  | 0, _, _, _ => none
  | room + 1, draft, before, cs =>
    match cs with
    | [] => draft.finish?
    | '*' :: '*' :: rest =>
      let (draft, before, rest) := draft.readStars before rest
      readFrom room draft (some before) rest
    | '*' :: rest => readFrom room (draft.push (many .inName)) (some '*') rest
    | '?' :: rest => readFrom room (draft.push (one .inName)) (some '?') rest
    | '\\' :: rest =>
      match rest with
      | [] => none
      | c :: rest => readFrom room (draft.push (ofChar c)) (some c) rest
    | '\x7b' :: rest => readFrom room draft.openGroup (some '\x7b') rest
    | '\x7d' :: rest =>
      match draft.closeGroup? with
      | some draft => readFrom room draft (some '\x7d') rest
      | none => none
    | ',' :: rest => readFrom room draft.nextAlternative (some ',') rest
    | '[' :: rest =>
      if draft.isBracketPlain then readFrom room (draft.push (ofChar '[')) (some '[') rest
      else
        match readSet rest with
        | .set set rest => readFrom room (draft.push (one set)) (some ']') rest
        | .badRange => none
        | .unclosed =>
          readFrom room { draft.push (ofChar '[') with isBracketPlain := true } (some '[') rest
    | c :: rest => readFrom room (draft.push (ofChar c)) (some c) rest

/-- The glob that a text writes, if it is well-formed. -/
def read? (cs : List Char) : Option Glob := readFrom (cs.length + 1) {} none cs

end StoryCheck.Glob
