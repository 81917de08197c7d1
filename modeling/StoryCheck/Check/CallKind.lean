import StoryCheck.Check.Context
/-!
# Kinds of symbol by place

Each place of a rule takes some kinds of symbol only.

| place         | kinds                                      |
|---------------|--------------------------------------------|
| head of IF    | events that the header declares, databases |
| head of PROC  | calls                                      |
| head of QRY   | queries                                    |
| condition     | queries, databases                         |
| action        | calls, databases; with NOT databases only  |
-/

namespace StoryCheck.Check

open Syntax

/-- What is wrong with a symbol of a kind at a place, if the place does not take it. -/
def misplacement? (context : CheckContext) (call : Call) (symbol : StorySymbol) :
    Option (Code × String) :=
  let key := symbol.key.display
  let kind := symbol.kind.display
  match call.role, symbol.kind with
  | _, .unknown => none
  | .head .ifRule, .event =>
    if symbol.isSystem then none
    else
      some (.undeclaredEvent,
        s!"Event '{key}' is not declared in the story header" ++ context.hint symbol.key)
  | .head .ifRule, .database => none
  | .head .ifRule, _ =>
    some (.invalidRuleHead,
      s!"IF rules must start with an event or a database, '{key}' is a {kind}")
  | .head .proc, .call => none
  | .head .proc, _ =>
    some (.invalidRuleHead, s!"PROC rules can only define calls, '{key}' is a {kind}")
  | .head .query, .query => none
  | .head .query, _ =>
    some (.invalidRuleHead, s!"QRY rules can only define queries, '{key}' is a {kind}")
  | .condition, .query | .condition, .database => none
  | .condition, _ =>
    some (.misplacedCall, s!"'{key}' is a {kind} and cannot be used as a condition")
  | _, .database => none
  | _, .call =>
    if call.negated then
      some (.misplacedCall, s!"Only databases can be deleted with NOT, '{key}' is a call")
    else
      none
  | _, _ => some (.misplacedCall, s!"'{key}' is a {kind} and cannot be used as an action")

/-- Reports symbols at places that do not take their kind. -/
def callKindReports (context : CheckContext) : List Diagnostic :=
  context.atCalls fun call symbol =>
    match misplacement? context call symbol with
    | some (code, message) => [.error code message call.signature.range.span]
    | none => []

end StoryCheck.Check
