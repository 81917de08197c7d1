import StoryCheck.Token
/-!
# Syntax trees of goals

A goal is a list of options, an INIT section of actions, a knowledge base of rules and an EXIT
section of actions. Every part carries its range: from its first to its last token, or the place
of the next token if it has none.

Reading never fails. A part that is absent where the grammar wants one is an identifier without a
name, so every tree has the same shape as that of a whole goal.
-/

namespace StoryCheck.Syntax

/-! ## Names -/

/-- What the spelling of a name says about it. -/
inductive NameClass where
  /-- A database, `DB_` in front. -/
  | database
  /-- The placeholder, a lone underscore. -/
  | placeholder
  /-- A variable of a rule, underscore in front. -/
  | variable
  | plain
deriving DecidableEq, Repr, Inhabited

/-- The class of a name. -/
def NameClass.of (name : String) : NameClass :=
  match name.toList with
  | 'D' :: 'B' :: '_' :: _ => .database
  | ['_'] => .placeholder
  | '_' :: _ => .variable
  | _ => .plain

/-- A name and where it stands. -/
structure Identifier where
  name : String
  range : Range
deriving DecidableEq, Repr, Inhabited

/-! ## Signatures -/

/-- What is handed over: a variable or name, or a constant. -/
inductive Term where
  | name (name : String)
  | integer (value : Int)
  /-- A number with a point, by the bits of its double. -/
  | real (bits : UInt64)
  | string (value : String)
  | guid (value : String)
deriving DecidableEq, Repr, Inhabited

/-- A term and where it stands. -/
structure Argument where
  term : Term
  range : Range
deriving DecidableEq, Repr, Inhabited

/-- The name of an argument that is a name. -/
def Argument.name? (argument : Argument) : Option String :=
  match argument.term with
  | .name name => some name
  | _ => none

/-- The direction of a parameter. -/
inductive Flow where
  | input | output
deriving DecidableEq, Repr, Inhabited

/-- A type in brackets in front of an argument. -/
structure TypeHint where
  name : String
  range : Range
deriving DecidableEq, Repr, Inhabited

/-- An argument with the direction and type that are written in front of it. -/
structure Parameter where
  flow : Option Flow
  type : Option TypeHint
  argument : Argument
  range : Range
deriving DecidableEq, Repr, Inhabited

/-- A name with its parameters in brackets. -/
structure Signature where
  identifier : Identifier
  parameters : List Parameter
  range : Range
deriving DecidableEq, Repr, Inhabited

/-- Number of parameters. -/
def Signature.arity (signature : Signature) : Nat := signature.parameters.length

/-! ## Rules -/

/-- The kinds of rule: run when a condition comes true, when called, or when asked. -/
inductive RuleKind where
  | ifRule | proc | query
deriving DecidableEq, Repr, Inhabited

/-- The keyword that opens a rule. -/
def RuleKind.keyword : RuleKind → String
  | ifRule => "IF"
  | proc => "PROC"
  | query => "QRY"

/-- The ways to compare two values. -/
inductive Operator where
  | equal | notEqual | less | lessEqual | greater | greaterEqual
deriving DecidableEq, Repr, Inhabited

/-- The operator that a token writes. -/
def Operator.ofKind? : TokenKind → Option Operator
  | .equal => some .equal
  | .notEqual => some .notEqual
  | .less => some .less
  | .lessEqual => some .lessEqual
  | .greater => some .greater
  | .greaterEqual => some .greaterEqual
  | _ => none

/-- The right side of a comparison, which is absent if there is no operator. -/
inductive Operand where
  | parameter (parameter : Parameter)
  | missing (range : Range)
deriving DecidableEq, Repr, Inhabited

/-- What a condition asks for. -/
inductive Condition.Form where
  | call (signature : Signature) (negated : Bool)
  | comparison (operator : Operator) (left : Parameter) (right : Operand)
deriving DecidableEq, Repr, Inhabited

/-- A condition of a rule. -/
structure Condition where
  form : Condition.Form
  range : Range
deriving DecidableEq, Repr, Inhabited

/-- The conditions of a rule after its head. -/
structure ConditionBlock where
  conditions : List Condition
  range : Range
deriving DecidableEq, Repr, Inhabited

/-- What an action does. -/
inductive Action.Form where
  | call (signature : Signature) (negated : Bool)
  | goalCompleted
deriving DecidableEq, Repr, Inhabited

/-- An action of a rule or a section. -/
structure Action where
  form : Action.Form
  range : Range
deriving DecidableEq, Repr, Inhabited

/-- The actions of a rule or a section. -/
structure ActionBlock where
  actions : List Action
  range : Range
deriving DecidableEq, Repr, Inhabited

/-- A rule: when the head and all conditions hold, the actions run. -/
structure Rule where
  kind : RuleKind
  head : Signature
  conditions : ConditionBlock
  actions : ActionBlock
  /-- The region that is open at the keyword. -/
  region : Option String
  /-- The comment in front of the keyword. -/
  comment : Option String
  range : Range
deriving DecidableEq, Repr, Inhabited

/-! ## Goals -/

/-- Whether an option stands before or behind the sections. -/
inductive OptionPlacement where
  | header | footer
deriving DecidableEq, Repr, Inhabited

/-- The value of an option, if there is one that can be used. -/
inductive OptionValue where
  | integer (value : Int)
  | identifier (name : String)
  | string (value : String)
  | missing
deriving DecidableEq, Repr, Inhabited

/-- An option of a goal. -/
structure GoalOption where
  name : String
  value : OptionValue
  placement : OptionPlacement
  range : Range
deriving DecidableEq, Repr, Inhabited

/-- A whole goal. -/
structure Goal where
  options : List GoalOption
  init : ActionBlock
  rules : List Rule
  exit : ActionBlock
  range : Range
deriving DecidableEq, Repr, Inhabited

/-- The goals that a goal names as its parents, wherever the option stands. -/
def Goal.parentEdges (goal : Goal) : List (String × Range) :=
  goal.options.filterMap fun option =>
    match option.value with
    | .string parent => if option.name = "ParentTargetEdge" then some (parent, option.range) else none
    | _ => none

end StoryCheck.Syntax
