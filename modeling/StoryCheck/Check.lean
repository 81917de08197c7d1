import StoryCheck.Check.Argument
import StoryCheck.Check.CallKind
import StoryCheck.Check.GuidString
import StoryCheck.Check.Parent
import StoryCheck.Check.Usage
/-!
# Checking a goal

There is a fixed list of checks, each of them about one concern. What they report is put together
and sorted, so the order in which they run does not show.
-/

namespace StoryCheck

/-- The checks of a goal. -/
inductive Check where
  /-- Unresolved symbols and idle databases. -/
  | usage
  /-- Kinds of symbol by place. -/
  | callKinds
  /-- Arguments for parameters. -/
  | arguments
  /-- Strings for GUIDs. -/
  | guidStrings
  /-- Parents of the goal. -/
  | parents
deriving DecidableEq, Repr, Inhabited

namespace Check

/-- All checks in the order in which they run. -/
def all : List Check := [usage, callKinds, arguments, guidStrings, parents]

/-- What a check reports. -/
def reports : Check → CheckContext → List Diagnostic
  | usage => usageReports
  | callKinds => callKindReports
  | arguments => argumentReports
  | guidStrings => guidStringReports
  | parents => parentReports

end Check

/-- What some checks report about a goal, in order, under the address of the goal. -/
def CheckContext.run (context : CheckContext) (checks : List Check) : List Diagnostic :=
  Diagnostic.sort
    ((checks.flatMap fun check => check.reports context).map (·.inFile context.goal.uri))

/-- What all checks report about a goal. -/
def CheckContext.runAll (context : CheckContext) : List Diagnostic := context.run Check.all

end StoryCheck
