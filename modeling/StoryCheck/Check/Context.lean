import StoryCheck.Environment
import StoryCheck.StoryGoal
import StoryCheck.Symbol.Suggest
/-!
# What a check looks at

A check goes over one goal and reports. It sees the symbols of the whole story as they were
resolved last, and changes nothing.
-/

namespace StoryCheck

open Syntax

/-- What a check looks at. -/
structure CheckContext where
  goal : StoryGoal
  /-- The names of all goals of the story. -/
  goalNames : List String
  symbols : SymbolTable
  types : TypeRegistry
  environment : Environment
deriving Repr, Inhabited

namespace CheckContext

/-- The symbol that a call site calls. -/
def symbol? (context : CheckContext) (call : Call) : Option StorySymbol :=
  context.symbols.get? call.key

/-- The symbol that a call site calls, provided that its kind is known. -/
def knownSymbol? (context : CheckContext) (call : Call) : Option StorySymbol :=
  (context.symbol? call).filter fun s => s.kind != .unknown

/-- What a check of single call sites reports about all of them. -/
def atCalls (context : CheckContext) (report : Call → StorySymbol → List Diagnostic) :
    List Diagnostic :=
  context.goal.tree.calls.flatMap fun call =>
    match context.symbol? call with
    | some symbol => report call symbol
    | none => []

/-- The end of a message about a symbol that may be a slip for another one. -/
def hint (context : CheckContext) (key : SymbolKey) : String :=
  match context.symbols.suggest? key with
  | some other => s!"; did you mean '{other.display}'?"
  | none => ""

end CheckContext

end StoryCheck
