/-!
# Offsets, positions and ranges of a text

A place in a text is given in two ways. An *offset* counts the bytes of the UTF-8 form before it.
A *position* is a zero-based line together with the number of characters before the place on that
line, packed into one number so that positions compare like places. `LineIndex` holds the lines of
one text and goes back and forth between the two.

A line ends with a line feed, with a carriage return, or with the pair of them; the terminator
belongs to the line it ends, so the lines of a text are exactly the text cut into pieces.
-/

namespace StoryCheck

/-! ## Bytes of a text -/

/-- Number of bytes that the UTF-8 form of `cs` takes. -/
def byteLength : List Char → Nat
  | [] => 0
  | c :: cs => c.utf8Size + byteLength cs

@[simp] theorem byteLength_nil : byteLength [] = 0 := rfl

@[simp] theorem byteLength_cons (c : Char) (cs : List Char) :
    byteLength (c :: cs) = c.utf8Size + byteLength cs := rfl

@[simp] theorem byteLength_append (as bs : List Char) :
    byteLength (as ++ bs) = byteLength as + byteLength bs := by
  induction as with
  | nil => simp
  | cons a as ih => simp [ih, Nat.add_assoc]

/-- Every character takes a byte, so no text has more characters than bytes. -/
theorem length_le_byteLength (cs : List Char) : cs.length ≤ byteLength cs := by
  induction cs with
  | nil => simp
  | cons c cs ih =>
    have hc : 0 < c.utf8Size := Char.utf8Size_pos c
    simp only [List.length_cons, byteLength_cons]
    omega

/-- Number of characters in the first `bytes` bytes of a text; nothing if a character is cut. -/
def charactersWithin : (bytes : Nat) → List Char → Option Nat
  | 0, _ => some 0
  | _ + 1, [] => none
  | bytes + 1, c :: cs =>
    if c.utf8Size ≤ bytes + 1 then
      (charactersWithin (bytes + 1 - c.utf8Size) cs).map (· + 1)
    else
      none

/-- The text from the character on at which `bytes` bytes have passed. -/
def dropBytes : (bytes : Nat) → List Char → List Char
  | 0, cs => cs
  | _ + 1, [] => []
  | bytes + 1, c :: cs => dropBytes (bytes + 1 - c.utf8Size) cs

/-- The text up to the character at which `bytes` bytes have passed. -/
def takeBytes : (bytes : Nat) → List Char → List Char
  | 0, _ => []
  | _ + 1, [] => []
  | bytes + 1, c :: cs => c :: takeBytes (bytes + 1 - c.utf8Size) cs

/-- The part of a text between two offsets. -/
def slice (start stop : Nat) (cs : List Char) : List Char :=
  takeBytes (stop - start) (dropBytes start cs)

/-! ## Packed positions -/

/-- A line and a character packed as `line * 2 ^ 22 + character`. -/
abbrev PackedPosition := Nat

namespace PackedPosition

/-- Number of characters that a packed position can tell apart on a line: 2 to the 22nd. -/
abbrev characterLimit : Nat := 4194304

/-- Number of lines that a packed position can tell apart: 2 to the 30th. -/
abbrev lineLimit : Nat := 1073741824

/-- Packs a zero-based line and character; a number past its limit loses its high bits. -/
def pack (line character : Nat) : PackedPosition :=
  line % lineLimit * characterLimit + character % characterLimit

/-- The line and the character of a packed position. -/
def unpack (position : PackedPosition) : Nat × Nat :=
  (position / characterLimit % lineLimit, position % characterLimit)

/-- The line of a packed position. -/
abbrev line (position : PackedPosition) : Nat := (unpack position).1

end PackedPosition

/-! ## Lines -/

/-- A line of a text: the offset of its first byte and its characters, terminator included. -/
structure Line where
  start : Nat
  chars : List Char
deriving DecidableEq, Repr

namespace Line

/-- Cuts a text after every line terminator. What follows the last one is a line too, even when
it is empty. -/
def split : List Char → List Char × List (List Char)
  | [] => ([], [])
  | '\r' :: '\n' :: cs =>
    let (line, lines) := split cs
    (['\r', '\n'], line :: lines)
  | c :: cs =>
    let (line, lines) := split cs
    if c = '\r' ∨ c = '\n' then ([c], line :: lines) else (c :: line, lines)

/-- Gives each piece of a text the offset at which it starts. -/
def number (start : Nat) : List (List Char) → List Line
  | [] => []
  | chars :: rest => ⟨start, chars⟩ :: number (start + byteLength chars) rest

end Line

/-- The lines of one text, of which there is always a first. -/
structure LineIndex where
  /-- Bytes of the whole text. -/
  size : Nat
  first : Line
  rest : List Line
deriving Repr

namespace LineIndex

/-- The index of a text given by its characters. -/
def ofChars (cs : List Char) : LineIndex :=
  let (first, rest) := Line.split cs
  { size := byteLength cs, first := ⟨0, first⟩, rest := Line.number (byteLength first) rest }

/-- The index of a text. -/
def ofText (text : String) : LineIndex := ofChars text.toList

/-- All lines, in order. -/
def lines (index : LineIndex) : List Line := index.first :: index.rest

/-- Number of lines; a text that ends with a terminator has an empty line after it. -/
def lineCount (index : LineIndex) : Nat := index.lines.length

/-- Offset at which a line starts, if there is such a line. -/
def lineStart (index : LineIndex) (line : Nat) : Option Nat :=
  index.lines[line]?.map (·.start)

/-- The last of the lines `current :: rest` that starts no later than `offset`, with its number,
counting from `number`. -/
def locate (offset number : Nat) (current : Line) : List Line → Nat × Line
  | [] => (number, current)
  | next :: rest =>
    if next.start ≤ offset then locate offset (number + 1) next rest else (number, current)

/-- Position of an offset. An offset past the end stands for the end. An offset inside a character
has no character count, and the bytes since the start of its line take its place. -/
def position (index : LineIndex) (offset : Nat) : PackedPosition :=
  let offset := min offset index.size
  let (number, line) := locate offset 0 index.first index.rest
  let within := offset - line.start
  PackedPosition.pack number ((charactersWithin within line.chars).getD within)

/-- Offset of a position, which is the end of its line if the line has fewer characters and the
end of the text if there is no such line. -/
def offset (index : LineIndex) (position : PackedPosition) : Nat :=
  let (line, character) := position.unpack
  match index.lines[line]? with
  | some line => line.start + byteLength (line.chars.take character)
  | none => index.size

end LineIndex

/-! ## Spans and ranges -/

/-- The bytes from `start` up to and without `stop`. -/
structure Span where
  start : Nat
  stop : Nat
deriving DecidableEq, Inhabited, Repr

/-- A span together with the positions of its two ends. -/
structure Range where
  span : Span
  first : PackedPosition
  last : PackedPosition
deriving DecidableEq, Inhabited, Repr

namespace Range

/-- The range without bytes at a place. -/
def empty (offset : Nat) (position : PackedPosition) : Range :=
  ⟨⟨offset, offset⟩, position, position⟩

/-- The least range that holds both. Where the two have an end in common the position of the
first counts. -/
def union (a b : Range) : Range :=
  let (start, first) :=
    if b.span.start < a.span.start then (b.span.start, b.first) else (a.span.start, a.first)
  let (stop, last) :=
    if b.span.stop > a.span.stop then (b.span.stop, b.last) else (a.span.stop, a.last)
  ⟨⟨start, stop⟩, first, last⟩

/-- Whether an offset lies in a range, both of its ends included. -/
def contains (r : Range) (offset : Nat) : Bool :=
  r.span.start ≤ offset && offset ≤ r.span.stop

end Range

end StoryCheck
