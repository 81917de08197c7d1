import StoryCheck.Text.Position
/-!
# Diagnostics

What the checker has to say about a place of a text: how grave it is, a code that names the kind
of problem, a message, and the span it applies to. Nothing in the front end stops at bad input;
every problem becomes a diagnostic.

A list of diagnostics is shown sorted by place first, then by severity, code and message. Reports
of several passes come in the order of the passes, so only the sorted list is a fact about the
text.
-/

namespace StoryCheck

/-- How grave a problem is, the gravest first. -/
inductive Severity where
  | error | warning | info | hint
deriving DecidableEq, Repr, Inhabited

namespace Severity

/-- The word for a severity. -/
def word : Severity → String
  | error => "error"
  | warning => "warning"
  | info => "info"
  | hint => "hint"

/-- Place of a severity in the order of gravity. -/
def rank : Severity → Nat
  | error => 0
  | warning => 1
  | info => 2
  | hint => 3

end Severity

/-- The kinds of problem. Their numbers group them by the stage that finds them. -/
inductive Code where
  | unterminatedFloat | unterminatedString | lineBreakInString | unterminatedComment
  | unexpectedToken | missingToken | unexpectedEndOfFile | invalidOption | emptyActionBlock
  | invalidMarker
  | unresolvedSymbol | databaseNeverWritten | databaseNeverRead | undeclaredEvent
  | misplacedCall | invalidRuleHead
  | typeMismatch | unknownType | unboundVariable | invalidFlow | invalidEnumMember
  | invalidPlaceholder
  | invalidGuidString | unknownInstance | instanceKindMismatch | instanceNameMismatch
  | unresolvedParentGoal
deriving DecidableEq, Repr, Inhabited

namespace Code

/-- The number under which a kind of problem is shown: below 100 for tokens, hundreds for the
grammar, and from 1000 on for resolution, calls, parameters, instances and the goal tree. -/
def number : Code → Nat
  | unterminatedFloat => 1
  | unterminatedString => 2
  | lineBreakInString => 3
  | unterminatedComment => 4
  | unexpectedToken => 101
  | missingToken => 102
  | unexpectedEndOfFile => 103
  | invalidOption => 104
  | emptyActionBlock => 105
  | invalidMarker => 106
  | unresolvedSymbol => 1001
  | databaseNeverWritten => 1002
  | databaseNeverRead => 1003
  | undeclaredEvent => 1004
  | misplacedCall => 2001
  | invalidRuleHead => 2002
  | typeMismatch => 3001
  | unknownType => 3002
  | unboundVariable => 3003
  | invalidFlow => 3004
  | invalidEnumMember => 3005
  | invalidPlaceholder => 3006
  | invalidGuidString => 4001
  | unknownInstance => 4002
  | instanceKindMismatch => 4003
  | instanceNameMismatch => 4004
  | unresolvedParentGoal => 5001

/-- All kinds of problem, by number. -/
def all : List Code :=
  [unterminatedFloat, unterminatedString, lineBreakInString, unterminatedComment,
    unexpectedToken, missingToken, unexpectedEndOfFile, invalidOption, emptyActionBlock,
    invalidMarker, unresolvedSymbol, databaseNeverWritten, databaseNeverRead, undeclaredEvent,
    misplacedCall, invalidRuleHead, typeMismatch, unknownType, unboundVariable, invalidFlow,
    invalidEnumMember, invalidPlaceholder, invalidGuidString, unknownInstance,
    instanceKindMismatch, instanceNameMismatch, unresolvedParentGoal]

/-- Two kinds of problem never share a number. -/
theorem number_injective {a b : Code} (h : a.number = b.number) : a = b := by
  cases a <;> cases b <;> first | rfl | (exact absurd h (by decide))

end Code

/-- A further span with what it has to do with the problem. -/
structure Note where
  span : Span
  message : String
deriving DecidableEq, Repr, Inhabited

/-- A problem at a span of a text. -/
structure Diagnostic where
  severity : Severity
  code : Code
  message : String
  /-- Address of the text; empty as long as the text has not been given one. -/
  file : String := ""
  span : Span
  notes : List Note := []
deriving DecidableEq, Repr, Inhabited

namespace Diagnostic

/-- A diagnostic of severity `error`. -/
def error (code : Code) (message : String) (span : Span) : Diagnostic :=
  { severity := .error, code, message, span }

/-- A diagnostic of severity `warning`. -/
def warning (code : Code) (message : String) (span : Span) : Diagnostic :=
  { severity := .warning, code, message, span }

/-- A diagnostic of severity `info`. -/
def info (code : Code) (message : String) (span : Span) : Diagnostic :=
  { severity := .info, code, message, span }

/-- The same diagnostic in the text at an address. -/
def inFile (file : String) (d : Diagnostic) : Diagnostic := { d with file }

/-- Another token stands where the grammar wants `expected`. -/
def unexpectedToken (expected found : String) (span : Span) : Diagnostic :=
  error .unexpectedToken s!"Expected {expected}, found {found}" span

/-- A token that the grammar wants is absent. -/
def missingToken (expected : String) (span : Span) : Diagnostic :=
  error .missingToken s!"Expected {expected}" span

/-- A call of a symbol that nothing defines. -/
def unresolvedSymbol (name : String) (arity : Nat) (span : Span) : Diagnostic :=
  error .unresolvedSymbol s!"Unresolved symbol '{name}/{arity}'" span

/-- An argument whose type does not fit the parameter; parameters are shown counted from one. -/
def typeMismatch (symbol : String) (index : Nat) (expected found : String) (span : Span) :
    Diagnostic :=
  error .typeMismatch s!"Parameter {index + 1} of '{symbol}' expects {expected}, found {found}"
    span

/-- A variable is used before anything binds it. -/
def unboundVariable (name : String) (span : Span) : Diagnostic :=
  error .unboundVariable s!"Variable '{name}' is not bound here" span

/-- Whether the problem is of the gravest severity. -/
def isError (d : Diagnostic) : Bool := d.severity == .error

/-- A diagnostic as one line, with a further line for each note. -/
def display (d : Diagnostic) : String :=
  let at_ (span : Span) := s!"(at {span.start}:{span.stop})"
  d.notes.foldl (fun text note => text ++ s!"\n  note: {note.message} {at_ note.span}")
    s!"{d.severity.word}: {d.message} {at_ d.span}"

/-! ## Lists of diagnostics -/

/-- The order in which diagnostics are shown: start, end, severity, code number, message. -/
def order (a b : Diagnostic) : Ordering :=
  compare a.span.start b.span.start
    |>.then (compare a.span.stop b.span.stop)
    |>.then (compare a.severity.rank b.severity.rank)
    |>.then (compare a.code.number b.code.number)
    |>.then (compare a.message b.message)

/-- The diagnostics in the order in which they are shown; equals keep their order. -/
def sort (ds : List Diagnostic) : List Diagnostic :=
  ds.mergeSort fun a b => (order a b).isLE

/-- The diagnostics by start and end alone; equals keep their order. -/
def sortBySpan (ds : List Diagnostic) : List Diagnostic :=
  ds.mergeSort fun a b =>
    (compare a.span.start b.span.start |>.then (compare a.span.stop b.span.stop)).isLE

/-- The errors of a list. -/
def errors (ds : List Diagnostic) : List Diagnostic := ds.filter (·.severity == .error)

/-- The warnings of a list. -/
def warnings (ds : List Diagnostic) : List Diagnostic := ds.filter (·.severity == .warning)

/-- Whether a list has an error. -/
def hasErrors (ds : List Diagnostic) : Bool := ds.any (·.severity == .error)

/-- A list in a few words. -/
def summary (ds : List Diagnostic) : String :=
  if ds.isEmpty then "No issues found"
  else s!"{(errors ds).length} errors, {(warnings ds).length} warnings"

end Diagnostic

end StoryCheck
