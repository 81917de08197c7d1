import StoryCheck.Syntax.HeaderGrammar
/-!
# Header goals as goals

A header goal is put back into the form of a goal: the texts of its sections between the keywords,
and the goal that lists it as a subgoal as its parent. `SourceMap` leads from the text so made back
to the header.

Every line that was copied from a section is mapped byte by byte. The rest of the text was not in
the header; its places stand for the end of the closest copied line before them, or for the start
of the goal in the header if there is none.
-/

namespace StoryCheck.Syntax

/-- A copied line: where it starts in the made text and in the header, and its bytes. -/
structure LineOrigin where
  start : Nat
  origin : Nat
  size : Nat
deriving DecidableEq, Repr, Inhabited

/-- From the text made of a header goal back to the header. -/
structure SourceMap where
  /-- The copied lines in order. -/
  lines : List LineOrigin := []
  /-- What places before the first copied line stand for. -/
  fallback : Nat := 0
deriving DecidableEq, Repr, Inhabited

namespace SourceMap

/-- The offset in the header that an offset stands for. -/
def offset (map : SourceMap) (offset : Nat) : Nat :=
  match (map.lines.takeWhile (·.start ≤ offset)).getLast? with
  | some line => line.origin + min (offset - line.start) line.size
  | none => map.fallback

/-- The span in the header that a span stands for. -/
def span (map : SourceMap) (span : Span) : Span :=
  let start := map.offset span.start
  ⟨start, max start (map.offset span.stop)⟩

/-- A diagnostic of the made text as one of the header. -/
def diagnostic (map : SourceMap) (d : Diagnostic) : Diagnostic :=
  { d with
    span := map.span d.span
    notes := d.notes.map fun note => { note with span := map.span note.span } }

end SourceMap

/-- The lines that a section puts at an offset of the made text. -/
def Section.linesAt (start : Nat) : (lines : List (List Char)) → (origins : List Nat) →
    List LineOrigin
  | line :: lines, origin :: origins =>
    ⟨start, origin, byteLength line⟩ :: linesAt (start + byteLength line + 1) lines origins
  | _, _ => []

/-- The texts of sections, each before the keyword that follows it, from an offset of the made
text on, and the lines copied. A section without text leaves no line. -/
def assemble (start : Nat) : List (Section × String) → List Char × List LineOrigin
  | [] => ([], [])
  | (block, keyword) :: rest =>
    let (copied, lines) :=
      if block.text.isEmpty then ([], [])
      else (block.text ++ ['\n'], Section.linesAt start (splitLines block.text) block.origins)
    let piece := copied ++ keyword.toList ++ ['\n']
    let (text, more) := assemble (start + byteLength piece) rest
    (piece ++ text, lines ++ more)

/-- What stands before the INIT section of every made goal. -/
def HeaderGoal.preamble : String := "Version 1\nSubGoalCombiner SGC_AND\nINITSECTION\n"

/-- The text of a header goal, with a parent if it has one, and the way back to the header. -/
def HeaderGoal.toText (goal : HeaderGoal) (parent : Option String) : String × SourceMap :=
  let (body, lines) := assemble (byteLength preamble.toList)
    [(goal.init, "KBSECTION"), (goal.kb, "EXITSECTION"), (goal.exit, "ENDEXITSECTION")]
  let edge := match parent with
    | some parent => s!"ParentTargetEdge \"{parent}\";\n"
    | none => ""
  (preamble ++ String.ofList body ++ edge, { lines, fallback := goal.range.span.start })

/-- The title of the first goal that lists a goal as a subgoal. -/
def Header.parentTitle? (header : Header) (id : Int) : Option String :=
  (header.goals.find? fun goal => goal.subGoals.contains id).map (·.title)

/-- Every goal of a header by its title, as the text of a goal with the way back to the header. -/
def Header.goalTexts (header : Header) : List (String × String × SourceMap) :=
  header.goals.map fun goal => (goal.title, goal.toText (header.parentTitle? goal.id))

end StoryCheck.Syntax
