import StoryCheck.Syntax.Tree
/-!
# Call sites

Where a goal calls or defines symbols, and where its rules mention parameters. A signature without
a name calls nothing.
-/

namespace StoryCheck.Syntax

/-- Where a call site sits in its goal. -/
inductive Role where
  | head (kind : RuleKind)
  | condition
  | action
  | initAction
  | exitAction
deriving DecidableEq, Repr, Inhabited

/-- Whether a call site is an action. -/
def Role.isAction : Role → Bool
  | action | initAction | exitAction => true
  | _ => false

/-- A signature that calls or defines a symbol. -/
structure Call where
  signature : Signature
  role : Role
  negated : Bool
  /-- The range of the rule around it; none for actions of a section. -/
  rule : Option Range
deriving DecidableEq, Repr, Inhabited

namespace Call

/-- Name of the symbol. -/
def name (call : Call) : String := call.signature.identifier.name

/-- Number of parameters. -/
def arity (call : Call) : Nat := call.signature.arity

/-- The call site at a signature, unless the name is missing. -/
def at? (signature : Signature) (role : Role) (negated : Bool) (rule : Option Range) :
    Option Call :=
  if signature.identifier.name = "" then none else some { signature, role, negated, rule }

end Call

/-- The call site of a condition. -/
def Condition.call? (rule : Range) (condition : Condition) : Option Call :=
  match condition.form with
  | .call signature negated => Call.at? signature .condition negated rule
  | .comparison .. => none

/-- The call site of an action. -/
def Action.call? (role : Role) (rule : Option Range) (action : Action) : Option Call :=
  match action.form with
  | .call signature negated => Call.at? signature role negated rule
  | .goalCompleted => none

/-- The call sites of a block of actions. -/
def ActionBlock.calls (role : Role) (rule : Option Range) (block : ActionBlock) : List Call :=
  block.actions.filterMap (Action.call? role rule)

namespace Rule

/-- The call site at the head. -/
def headCall? (rule : Rule) : Option Call :=
  Call.at? rule.head (.head rule.kind) false rule.range

/-- The call sites of a rule: head, conditions, actions. -/
def calls (rule : Rule) : List Call :=
  rule.headCall?.toList
    ++ rule.conditions.conditions.filterMap (Condition.call? rule.range)
    ++ rule.actions.calls .action (some rule.range)

end Rule

/-- The call sites of a goal in the order of the source. -/
def Goal.calls (goal : Goal) : List Call :=
  goal.init.calls .initAction none
    ++ goal.rules.flatMap Rule.calls
    ++ goal.exit.calls .exitAction none

/-! ## Mentions -/

/-- A parameter as a rule comes upon it. -/
structure Mention where
  parameter : Parameter
  /-- The call whose parameter it is; none for a side of a comparison. -/
  call : Option Call
  /-- Place among the parameters of the call or the sides of the comparison. -/
  index : Nat
deriving DecidableEq, Repr, Inhabited

/-- The parameters of a call. -/
def Call.mentions (call : Call) : List Mention :=
  call.signature.parameters.zipIdx.map fun (parameter, index) =>
    { parameter, call := some call, index }

/-- The parameters of a condition. The absent side of a comparison is none. -/
def Condition.mentions (rule : Range) (condition : Condition) : List Mention :=
  match condition.form with
  | .call .. => ((condition.call? rule).map Call.mentions).getD []
  | .comparison _ left right =>
    { parameter := left, call := none, index := 0 } ::
      match right with
      | .parameter right => [{ parameter := right, call := none, index := 1 }]
      | .missing _ => []

/-- The parameters of a rule in the order of evaluation: head, conditions, actions. -/
def Rule.mentions (rule : Rule) : List Mention :=
  (rule.headCall?.map Call.mentions).getD []
    ++ rule.conditions.conditions.flatMap (Condition.mentions rule.range)
    ++ (rule.actions.calls .action (some rule.range)).flatMap Call.mentions

end StoryCheck.Syntax
