import StoryCheck.Symbol.Key
import StoryCheck.Syntax.Calls
import StoryCheck.ValueType
/-!
# Scopes of rules

A variable lives in one rule. The scope of a rule goes through its parameters in the order of
evaluation and keeps, for every variable, the mention that comes first. Later mentions take their
type from it.
-/

namespace StoryCheck

open Syntax

/-- A variable of a rule, by its first mention. -/
structure Variable where
  name : String
  /-- The type that is written in front of the first mention. -/
  written : Option ValueType
  /-- The call whose parameter the first mention is; none for a side of a comparison. -/
  call : Option Call
  /-- Place of the first mention among the parameters of the call or the sides. -/
  index : Nat
  /-- Where the first mention stands. -/
  binder : Range
deriving DecidableEq, Repr, Inhabited

namespace Variable

/-- The name without the underscores in front. -/
def displayName (v : Variable) : String := String.ofList (v.name.toList.dropWhile (· == '_'))

/-- The symbol parameter that the first mention is, if it is one. -/
def source? (v : Variable) : Option ParameterRef :=
  v.call.map fun call => ⟨⟨call.name, call.arity⟩, v.index⟩

/-- Whether the first mention gives the variable a value. Only rule heads and conditions without
NOT do; a first mention anywhere else reads a variable that holds nothing. -/
def isBound (v : Variable) : Bool :=
  match v.call with
  | none => false
  | some call =>
    match call.role with
    | .head _ | .condition => !call.negated
    | _ => false

end Variable

/-- What an argument contributes where it stands. -/
inductive ArgumentUse where
  | constant (type : ValueType)
  /-- The first mention of a variable. -/
  | binding (name : String)
  /-- A later mention of a variable. -/
  | reference (name : String)
  /-- The placeholder. -/
  | placeholder
  /-- Anything else, such as a bare name. -/
  | other
deriving DecidableEq, Repr, Inhabited

/-- A mention with what it contributes. -/
structure ScopedParameter where
  mention : Mention
  use : ArgumentUse
  /-- The type that is written in front. -/
  written : Option ValueType
deriving DecidableEq, Repr, Inhabited

/-- The variables of a rule in the order of their first mentions, and all its mentions. -/
structure RuleScope where
  vars : List Variable := []
  parameters : List ScopedParameter := []
deriving DecidableEq, Repr, Inhabited

/-- The type that is written in front of a parameter. -/
def writtenType? (types : TypeRegistry) (parameter : Parameter) : Option ValueType :=
  parameter.type.map fun type => types.resolve type.name

namespace RuleScope

/-- A variable of the rule. -/
def lookup? (scope : RuleScope) (name : String) : Option Variable :=
  scope.vars.find? fun v => v.name == name

/-- Takes in the next mention. -/
def extend (types : TypeRegistry) (scope : RuleScope) (mention : Mention) : RuleScope :=
  let written := writtenType? types mention.parameter
  let argument := mention.parameter.argument
  let (use, fresh) : ArgumentUse × List Variable :=
    match argument.term with
    | .name name =>
      match NameClass.of name with
      | .variable =>
        if (scope.lookup? name).isSome then (.reference name, [])
        else
          (.binding name,
            [{ name, written, call := mention.call, index := mention.index,
               binder := argument.range }])
      | .placeholder => (.placeholder, [])
      | _ => (.other, [])
    | term =>
      match ValueType.ofTerm? term with
      | some type => (.constant type, [])
      | none => (.other, [])
  { vars := scope.vars ++ fresh
    parameters := scope.parameters ++ [{ mention, use, written }] }

/-- The scope of a rule. -/
def ofRule (types : TypeRegistry) (rule : Rule) : RuleScope :=
  rule.mentions.foldl (extend types) {}

end RuleScope

end StoryCheck
