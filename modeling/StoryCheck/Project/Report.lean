import StoryCheck.Diagnostic.Report
import StoryCheck.Project
/-!
# Reports on a story

What there is to say about the header and the goals of the project itself, drawn one by one. Goals
of dependencies and of the header are not reported.
-/

namespace StoryCheck

/-- The reports on a story, drawn, with how many of them are grave. -/
structure CheckReport where
  errors : Nat := 0
  warnings : Nat := 0
  messages : List String := []
deriving DecidableEq, Repr, Inhabited

namespace CheckReport

/-- Whether there is an error. -/
def hasErrors (report : CheckReport) : Bool := 0 < report.errors

/-- A report in a few words. -/
def summary (report : CheckReport) : String :=
  if report.errors = 0 ∧ report.warnings = 0 then "No issues found"
  else s!"{report.errors} errors, {report.warnings} warnings"

/-- Adds what there is to say about a text, in order of place. -/
def add (report : CheckReport) (uri text : String) (diagnostics : List Diagnostic) :
    CheckReport :=
  { errors := report.errors + (Diagnostic.errors diagnostics).length
    warnings := report.warnings + (Diagnostic.warnings diagnostics).length
    messages := report.messages
      ++ (Diagnostic.sort diagnostics).map fun d => s!"--> {uri}\n{Report.render text d}" }

/-- The report on a story. The text of the header is read again; it is taken as empty if that
fails. -/
def ofStory (disk : Disk) (story : Story) : CheckReport :=
  let headerText :=
    match disk.readText ⟨story.headerUri⟩ with
    | .ok text => text
    | .error _ => ""
  let header := CheckReport.add {} story.headerUri headerText story.headerReports
  (story.goals.goals.filter fun goal => !goal.isShared).foldl
    (fun report goal => report.add goal.uri goal.text goal.diagnostics) header

end CheckReport

end StoryCheck
