import StoryCheck.Check.Context
import StoryCheck.Text.Guid
/-!
# Strings for GUIDs

A string that is handed over where a GUID is wanted has the form of one, alone or behind a name.
-/

namespace StoryCheck.Check

open Syntax

/-- The report on an argument for a parameter of a symbol. -/
def guidStringReport (types : TypeRegistry) (wanted : SymbolParameter) (argument : Argument) :
    List Diagnostic :=
  match argument.term with
  | .string value =>
    if types.isGuid wanted.type && !Guid.isGuidString value.toList then
      [.error .invalidGuidString
        (s!"\"{value}\" is not a valid GUID string, "
          ++ "expected NAME_xxxxxxxx-xxxx-xxxx-xxxx-xxxxxxxxxxxx")
        argument.range.span]
    else
      []
  | _ => []

/-- Reports strings that stand for a GUID and have not its form. -/
def guidStringReports (context : CheckContext) : List Diagnostic :=
  context.atCalls fun call symbol =>
    if symbol.kind = .unknown then []
    else
      (symbol.parameters.zip call.signature.parameters).flatMap fun (wanted, parameter) =>
        guidStringReport context.types wanted parameter.argument

end StoryCheck.Check
