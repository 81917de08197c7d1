import StoryCheck.Diagnostic
import StoryCheck.Text.Blank
/-!
# Drawing a diagnostic under its line

A report shows the line on which a diagnostic starts, underlines its span and hangs the message
below the middle of it. Lines end with a line feed, and a text that ends with one has no empty
line after it.
-/

namespace StoryCheck.Report

/-- The word for a severity in a report. -/
def heading : Severity → String
  | .error => "Error"
  | .warning => "Warning"
  | .info | .hint => "Advice"

/-- Cuts a text after every line feed. -/
def pieces : List Char → List (List Char)
  | [] => []
  | c :: cs =>
    match pieces cs with
    | [] => [[c]]
    | piece :: rest => if c = '\n' then [c] :: piece :: rest else (c :: piece) :: rest

/-- Number of columns between tab stops. -/
def tabWidth : Nat := 4

/-- Cells that a character takes at a column: a tab reaches to the next stop. -/
def cells (column : Nat) (c : Char) : Nat :=
  if c = '\t' then (column / tabWidth + 1) * tabWidth - column else 1

/-- A line of text with its tabs as spaces. -/
def expandTabs (line : List Char) : List Char :=
  (line.zipIdx.map fun (c, column) =>
    if c = '\t' then List.replicate (cells column c) ' ' else [c]).flatten

/-- A drawing of `width` columns below a line. Each column is drawn by `glyph`; where the line has
a tab, the further cells repeat the line or the blank that leads out of the glyph. -/
def drawBelow (row : List Char) (width : Nat) (glyph : Nat → Char) : List Char :=
  ((List.range width).map fun column =>
    let c := glyph column
    let tail := if c = '┬' || c = '╰' || c = '─' then '─' else ' '
    let count := match row[column]? with
      | some below => cells column below
      | none => 1
    c :: List.replicate (count - 1) tail).flatten

/-- The span cut to a text of the given size. -/
def clamp (size : Nat) (span : Span) : Span :=
  let stop := min span.stop size
  ⟨min span.start stop, stop⟩

/-- Left-pads the digits of a number. -/
def padLeft (width : Nat) (pad : Char) (n : Nat) : String :=
  let digits := toString n
  String.ofList (List.replicate (width - digits.length) pad) ++ digits

/-- The report of a diagnostic in a text. -/
def render (text : String) (d : Diagnostic) : String :=
  let chars := text.toList
  let span := clamp (byteLength chars) d.span
  let numbered : Nat × Line :=
    match Line.number 0 (pieces chars) with
    | [] => (0, { start := 0, chars := [] })
    | first :: rest => LineIndex.locate span.start 0 first rest
  let line := numbered.2
  let column (offset : Nat) : Nat :=
    let within := offset - line.start
    (charactersWithin within line.chars).getD within
  let a := column span.start
  let b := column span.stop
  let middle := (a + b) / 2
  let shown := trimEnd line.chars
  let number := toString (numbered.1 + 1)
  let margin := String.ofList (List.replicate (number.length + 2) ' ')
  let rule := String.ofList (List.replicate (number.length + 2) '─')
  let underline := drawBelow shown (b + 2) fun c =>
    if c = middle then (if a ≤ middle && middle < b then '┬' else '│')
    else if a ≤ c && c < b then '─'
    else ' '
  let arm := drawBelow shown (b + 2) fun c =>
    if c < middle then ' ' else if c = middle then '╰' else '─'
  let code := padLeft 2 '0' d.code.number
  s!"[{code}] {heading d.severity}: {d.message}\n"
    ++ s!"{margin}╭─[ <unknown>:{number}:{a + 1} ]\n"
    ++ s!"{margin}│\n"
    ++ s!" {number} │ {String.ofList (expandTabs shown)}\n"
    ++ s!"{margin}│ {String.ofList underline}\n"
    ++ s!"{margin}│ {String.ofList arm} {d.message}\n"
    ++ s!"{rule}╯\n"

end StoryCheck.Report
