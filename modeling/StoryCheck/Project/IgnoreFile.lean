import StoryCheck.Project.Glob.Reading
import StoryCheck.Text.Blank
/-!
# Ignore files

An ignore file says which files and directories below its own directory are left out. Each line is
a glob; an exclamation mark in front of it says that what it matches is kept after all. The last
line that speaks of a path decides.

A glob with a slash in front or between its characters matches the whole path from the directory of
the ignore file, any other one matches a name at any depth. A slash at the end says that only
directories are meant.
-/

namespace StoryCheck

/-- What an ignore file says of a path. -/
inductive Verdict where
  | leftOut
  | kept
deriving DecidableEq, Repr, Inhabited

/-- A line of an ignore file. -/
structure IgnoreRule where
  glob : Glob
  verdict : Verdict
  /-- Whether only directories are meant. -/
  forDirectories : Bool
deriving Repr, Inhabited

namespace IgnoreRule

/-- Drops the blanks at the end of a line, unless the last of them is a space behind a backslash. -/
def trimLine (line : List Char) : List Char :=
  match line.reverse with
  | ' ' :: '\\' :: _ => line
  | _ => trimEnd line

/-- The glob of whole paths. Without a slash it matches a name at any depth, and two stars at the
end match what lies below, not the directory itself. -/
def wholeGlob (isAnchored : Bool) (glob : List Char) : List Char :=
  let glob :=
    if isAnchored || glob.contains '/' || glob == ['*', '*'] then glob
    else '*' :: '*' :: '/' :: glob
  if ['/', '*', '*'].isSuffixOf glob then glob ++ ['/', '*'] else glob

/-- The verdict that a line gives, and its glob. A backslash takes the meaning from an exclamation
mark or number sign at the start. -/
def splitVerdict : List Char → Verdict × List Char
  | '!' :: glob => (.kept, glob)
  | glob => (.leftOut, glob)

/-- The rule that a line without blanks at its end writes, if its glob is well-formed. -/
def read? (line : List Char) : Option IgnoreRule := do
  let (verdict, glob) := splitVerdict line
  let (isAnchored, glob) : Bool × List Char :=
    match line, glob with
    | '\\' :: '!' :: rest, _ => (false, '!' :: rest)
    | '\\' :: '#' :: rest, _ => (false, '#' :: rest)
    | _, '/' :: rest => (true, rest)
    | _, rest => (false, rest)
  let (forDirectories, glob) : Bool × List Char :=
    match glob.reverse with
    | '/' :: '\\' :: rest => (true, rest.reverse)
    | '/' :: rest => (true, rest.reverse)
    | _ => (false, glob)
  let glob ← Glob.read? (wholeGlob isAnchored glob)
  return { glob, verdict, forDirectories }

/-- Whether a rule speaks of a path below the directory of its ignore file. -/
def appliesTo (rule : IgnoreRule) (isDirectory : Bool) (path : List UInt8) : Bool :=
  (isDirectory || !rule.forDirectories) && rule.glob.isMatch path

end IgnoreRule

/-- The rules of an ignore file. Lines that are not well-formed are not among them. -/
structure IgnoreFile where
  rules : List IgnoreRule := []
  isWellFormed : Bool := true
deriving Repr, Inhabited

namespace IgnoreFile

/-- Adds a line. Blank lines and those that start with a number sign say nothing. -/
def addLine (file : IgnoreFile) (line : List Char) : IgnoreFile :=
  let trimmed := IgnoreRule.trimLine line
  if line.head? = some '#' ∨ trimmed.isEmpty then file
  else
    match IgnoreRule.read? trimmed with
    | some rule => { file with rules := file.rules ++ [rule] }
    | none => { file with isWellFormed := false }

/-- Drops the marks of the byte order in front of the first line. -/
def dropMarks : List (List Char) → List (List Char)
  | [] => []
  | first :: rest => first.dropWhile (· == '\uFEFF') :: rest

/-- The rules that lines write. -/
def ofLines (lines : List (List Char)) : IgnoreFile := (dropMarks lines).foldl addLine {}

/-- What the last rule that speaks of a path says. -/
def verdict? (file : IgnoreFile) (isDirectory : Bool) (path : List UInt8) : Option Verdict :=
  (file.rules.reverse.find? fun rule => rule.appliesTo isDirectory path).map (·.verdict)

end IgnoreFile

end StoryCheck
