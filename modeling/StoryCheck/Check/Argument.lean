import StoryCheck.Check.Context
import StoryCheck.Text.Guid
/-!
# Arguments

What is handed over at a call has to fit the parameter of the symbol:

- a type that is written in front exists,
- the value is of the type of the parameter,
- a variable has been given a value before an action, a comparison or a negated condition reads it,
- a parameter for input gets a value and a parameter for output no constant,
- the placeholder stands in heads and conditions only,
- a string is one of those that the parameter admits,
- a GUID is that of an object in a level, with the kind and the name of that object.

Sections run outside of rules: there are no variables, and the placeholder has no meaning.
-/

namespace StoryCheck.Check

open Syntax

/-- A parameter at a call, with the symbol and the parameter it is handed over to. -/
structure Handover where
  symbol : StorySymbol
  /-- Place among the parameters. -/
  index : Nat
  wanted : SymbolParameter
  given : Parameter
deriving Repr, Inhabited

/-- The symbol and parameter to which a parameter at a call is handed over; nothing as long as the
kind of the symbol is unknown. -/
def handover? (context : CheckContext) (call : Call) (index : Nat) (given : Parameter) :
    Option Handover := do
  let symbol ← context.knownSymbol? call
  let wanted ← symbol.parameters[index]?
  return { symbol, index, wanted, given }

/-! ## Types -/

/-- The report on a written type that does not exist. -/
def writtenTypeReports (types : TypeRegistry) (parameter : Parameter) : List Diagnostic :=
  match parameter.type with
  | some type =>
    if (types.resolve? type.name).isNone then
      [.error .unknownType s!"Unknown type '{type.name}'" parameter.range.span]
    else
      []
  | none => []

/-- The report on a value of type `found`. A string for a GUID is judged by its form alone. -/
def typeReports (types : TypeRegistry) (h : Handover) (found : ValueType) (isString : Bool) :
    List Diagnostic :=
  let expected := h.wanted.type
  if isString && types.isGuid expected then []
  else if types.isAssignable expected found then []
  else
    [.typeMismatch h.symbol.name h.index expected.display found.display h.given.range.span]

/-! ## Constants -/

/-- The report on a constant for a parameter for output. -/
def outputReports (h : Handover) : List Diagnostic :=
  if h.wanted.flow = some .output then
    [.error .invalidFlow
      (s!"Parameter {h.index + 1} of '{h.symbol.key.display}' is an [out] parameter "
        ++ "and cannot take a constant")
      h.given.range.span]
  else
    []

/-- The report on a string that the parameter does not admit. -/
def memberReports (environment : Environment) (h : Handover) : List Diagnostic :=
  match h.given.argument.term, environment.members? ⟨h.symbol.key, h.index⟩ with
  | .string value, some members =>
    if members.contains value then []
    else
      let listed := ", ".intercalate members
      [.warning .invalidEnumMember
        (s!"'{value}' is not a valid value for parameter {h.index + 1} of "
          ++ s!"'{h.symbol.key.display}', expected one of: {listed}")
        h.given.argument.range.span]
  | _, _ => []

/-- The text of a constant that may hold a GUID. -/
def guidText? : Term → Option String
  | .guid value | .string value => some value
  | _ => none

/-- The report on a GUID under a name, for a parameter of a type. -/
def objectReports (environment : Environment) (index : Nat) (type : ValueType)
    (name guid : String) (span : Span) : List Diagnostic :=
  match environment.object? guid with
  | none => [.warning .unknownInstance s!"No level object has the GUID '{guid}'" span]
  | some object =>
    let ofKind := match type with
      | .named wanted =>
        if object.kind.toLower = wanted.toLower then []
        else
          [.warning .instanceKindMismatch
            (s!"'{object.name}' is a {object.kind}, "
              ++ s!"parameter {index + 1} expects {wanted}") span]
      | _ => []
    let ofName :=
      if name.isEmpty || name = object.name then []
      else
        [.warning .instanceNameMismatch
          s!"GUID '{guid}' belongs to '{object.name}', not '{name}'" span]
    ofKind ++ ofName

/-- The report on a constant for a GUID, as far as the objects in the levels are known. -/
def instanceReports (types : TypeRegistry) (environment : Environment) (h : Handover) :
    List Diagnostic :=
  if environment.objects.isEmpty || !types.isGuid h.wanted.type then []
  else
    match (guidText? h.given.argument.term).bind fun text => Guid.split? text.toList with
    | some (name, guid) =>
      objectReports environment h.index h.wanted.type (String.ofList name) (String.ofList guid)
        h.given.argument.range.span
    | none => []

/-- The reports on a constant. -/
def constantReports (types : TypeRegistry) (environment : Environment) (h : Handover) :
    List Diagnostic :=
  outputReports h ++ memberReports environment h ++ instanceReports types environment h

/-! ## Variables and the placeholder -/

/-- The report on a placeholder outside of heads and conditions. -/
def placeholderReport (span : Span) : Diagnostic :=
  .error .invalidPlaceholder
    "The '_' placeholder can only be used in rule heads and conditions" span

/-- The report on a condition that hands a variable without value to a parameter for input. -/
def inputReports (context : CheckContext) (mention : Mention) (name : String) :
    List Diagnostic :=
  match mention.call with
  | none => []
  | some call =>
    match handover? context call mention.index mention.parameter with
    | none => []
    | some h =>
      if call.role = .condition ∧ h.wanted.flow = some .input then
        [.error .invalidFlow
          (s!"Parameter {h.index + 1} of '{h.symbol.key.display}' is an [in] parameter "
            ++ s!"and needs a bound value, '{name}' is not bound yet")
          mention.parameter.argument.range.span]
      else
        []

/-- Whether the placeholder has a meaning at a mention. -/
def admitsPlaceholder (mention : Mention) : Bool :=
  mention.call.any fun call =>
    match call.role with
    | .condition | .head _ => true
    | _ => false

/-- The reports on a first mention of a variable and on a placeholder. -/
def flowReports (context : CheckContext) (scope : RuleScope) (p : ScopedParameter) :
    List Diagnostic :=
  let span := p.mention.parameter.argument.range.span
  match p.use with
  | .binding name =>
    if (scope.lookup? name).any (·.isBound) then inputReports context p.mention name
    else [.unboundVariable name span]
  | .placeholder => if admitsPlaceholder p.mention then [] else [placeholderReport span]
  | _ => []

/-! ## Rules -/

/-- The type of the value at a mention, if there is a value: the written type, that of the
constant, or that of the variable. -/
def valueType? (context : CheckContext) (scope : RuleScope) (p : ScopedParameter) :
    Option ValueType :=
  match p.written, p.use with
  | some type, _ => some type
  | none, .constant type => some type
  | none, .reference name => some (scope.variableType context.symbols name)
  | none, _ => none

/-- Whether a mention is a constant. -/
def isConstant (p : ScopedParameter) : Bool :=
  match p.use with
  | .constant _ => true
  | _ => false

/-- The reports on the value of a parameter at a call. -/
def valueReports (context : CheckContext) (scope : RuleScope) (call : Call)
    (p : ScopedParameter) : List Diagnostic :=
  match handover? context call p.mention.index p.mention.parameter with
  | none => []
  | some h =>
    (match valueType? context scope p with
      | some found => typeReports context.types h found (p.use == .constant .string)
      | none => [])
    ++ (if isConstant p then constantReports context.types context.environment h else [])

/-- The report on two sides that cannot be compared. -/
def comparisonReports (types : TypeRegistry) (left right : ValueType) (span : Span) :
    List Diagnostic :=
  if types.isAssignable left right || types.isAssignable right left then []
  else [.error .typeMismatch s!"Cannot compare {left.display} with {right.display}" span]

/-- The reports on a mention. The mention in front of the right side of a comparison is its left
side. -/
def mentionReports (context : CheckContext) (scope : RuleScope)
    (before : Option ScopedParameter) (p : ScopedParameter) : List Diagnostic :=
  writtenTypeReports context.types p.mention.parameter
    ++ flowReports context scope p
    ++ match p.mention.call with
      | some call => valueReports context scope call p
      | none =>
        if p.mention.index = 0 then []
        else
          let left := (before.bind (valueType? context scope)).getD .unknown
          let right := (valueType? context scope p).getD .unknown
          comparisonReports context.types left right p.mention.parameter.range.span

/-- The reports on the mentions of a rule. -/
def ruleReports (context : CheckContext) (rule : Rule) : List Diagnostic :=
  let scope := RuleScope.ofRule context.types rule
  let before := none :: scope.parameters.map some
  (before.zip scope.parameters).flatMap fun (before, p) => mentionReports context scope before p

/-! ## Sections -/

/-- The type of a constant in a section; a written type counts if it exists. -/
def sectionType? (types : TypeRegistry) (parameter : Parameter) : Option ValueType :=
  (ValueType.ofTerm? parameter.argument.term).map fun type =>
    ((parameter.type.bind fun written => types.resolve? written.name).getD type)

/-- Whether a term is a string. -/
def isString : Term → Bool
  | .string _ => true
  | _ => false

/-- The reports on a parameter of a section's action. -/
def sectionReports (context : CheckContext) (call : Call) (index : Nat) (parameter : Parameter) :
    List Diagnostic :=
  let span := parameter.argument.range.span
  let term := parameter.argument.term
  writtenTypeReports context.types parameter
    ++ match term with
      | .name name =>
        match NameClass.of name with
        | .placeholder => [placeholderReport span]
        | .variable => [.unboundVariable name span]
        | _ => []
      | _ =>
        match handover? context call index parameter, sectionType? context.types parameter with
        | some h, some found =>
          typeReports context.types h found (isString term)
            ++ constantReports context.types context.environment h
        | _, _ => []

/-- The reports on an action of a section. -/
def sectionActionReports (context : CheckContext) (call : Call) : List Diagnostic :=
  call.signature.parameters.zipIdx.flatMap fun (parameter, index) =>
    sectionReports context call index parameter

/-- Reports arguments that do not fit, those of rules first. -/
def argumentReports (context : CheckContext) : List Diagnostic :=
  let tree := context.goal.tree
  let sectionCalls := tree.init.calls .initAction none ++ tree.exit.calls .exitAction none
  tree.rules.flatMap (ruleReports context)
    ++ sectionCalls.flatMap (sectionActionReports context)

end StoryCheck.Check
