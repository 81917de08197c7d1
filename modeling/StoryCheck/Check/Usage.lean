import StoryCheck.Check.Context
/-!
# Unresolved symbols and idle databases

A call of a symbol about whose kind nothing is known is unresolved: nothing defines it, or its
definitions contradict each other. A database that no rule reads is reported where it is written,
and one that nothing writes where it is read, unless the project lists it as an orphan.
-/

namespace StoryCheck.Check

open Syntax

/-- The words for the kinds that definitions claim, each once, in order. -/
def claimedKinds (symbol : StorySymbol) : List String :=
  ((symbol.definitions.map (·.kind.display)).mergeSort).eraseDups

/-- The report on a call of a symbol of unknown kind. -/
def unresolved (context : CheckContext) (symbol : StorySymbol) (span : Span) : Diagnostic :=
  let plain := Diagnostic.unresolvedSymbol symbol.name symbol.arity span
  if symbol.hasKindConflict then
    let kinds := ", ".intercalate (claimedKinds symbol)
    { plain with
      message := s!"Symbol '{symbol.key.display}' is used as more than one kind: {kinds}" }
  else
    { plain with message := plain.message ++ context.hint symbol.key }

/-- Whether a call site of a database inserts into it. -/
def isInsertion (call : Call) : Bool := call.role.isAction && !call.negated

/-- Whether a call site of a database asks it. -/
def isQuestion (call : Call) : Bool :=
  match call.role with
  | .condition | .head .ifRule => true
  | _ => false

/-- The report on a call of a database that is written in vain, or asked in vain. -/
def idleDatabase (call : Call) (symbol : StorySymbol) : List Diagnostic :=
  let span := call.signature.range.span
  let key := symbol.key.display
  if isInsertion call && symbol.reads.isEmpty then
    [.warning .databaseNeverRead s!"Database '{key}' is never used in a rule" span]
  else if isQuestion call && symbol.writes.isEmpty then
    [.warning .databaseNeverWritten
      s!"Database '{key}' is never written, this rule can never match" span]
  else
    []

/-- Reports calls of unresolved symbols and of databases that are only written or only read. -/
def usageReports (context : CheckContext) : List Diagnostic :=
  context.atCalls fun call symbol =>
    if symbol.kind = .unknown then [unresolved context symbol call.signature.range.span]
    else if symbol.isDatabase && !context.environment.orphans.contains symbol.key then
      idleDatabase call symbol
    else
      []

end StoryCheck.Check
