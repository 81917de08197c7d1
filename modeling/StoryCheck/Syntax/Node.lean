import StoryCheck.Syntax.Header
/-!
# Trees as nodes

Both kinds of syntax tree seen as one tree of nodes: each node has a kind, a range and its direct
parts in the order of the source. On this view a tree is walked, counted, and asked for the node
at a place.
-/

namespace StoryCheck.Syntax

/-- The kinds of node. -/
inductive NodeKind where
  | storyGoal | rule | signature | parameter | actionBlock | conditionBlock | signatureAction
  | signatureCondition | operatorCondition | identifier | integerLiteral | realLiteral
  | stringLiteral | guidLiteral | typeHint | goalCompletedAction | div | divGoal | definition
deriving DecidableEq, Repr, Inhabited

/-- A node with its direct parts. -/
inductive Node where
  | mk (kind : NodeKind) (range : Range) (children : List Node)
deriving Repr, Inhabited

namespace Node

/-- The kind of a node. -/
def kind : Node → NodeKind
  | mk kind _ _ => kind

/-- The range of a node. -/
def range : Node → Range
  | mk _ range _ => range

/-- The direct parts of a node. -/
def children : Node → List Node
  | mk _ _ children => children

mutual

/-- A node and all nodes below it, each before its parts. -/
def preorder : Node → List Node
  | mk kind range children => mk kind range children :: preorderAll children

/-- Several trees, one after the other. -/
def preorderAll : List Node → List Node
  | [] => []
  | node :: rest => preorder node ++ preorderAll rest

end

/-- Number of nodes. -/
def size (node : Node) : Nat := node.preorder.length

mutual

/-- The node that is reached by going down, as long as some part contains the offset, to the first
part that does. -/
def nodeAt (offset : Nat) : Node → Node
  | mk kind range children => (nodeAtAny offset children).getD (mk kind range children)

/-- The node reached through the first of several that contains the offset. -/
def nodeAtAny (offset : Nat) : List Node → Option Node
  | [] => none
  | node :: rest =>
    if node.range.contains offset then some (nodeAt offset node) else nodeAtAny offset rest

end

/-- A node without parts. -/
abbrev leaf (kind : NodeKind) (range : Range) : Node := mk kind range []

end Node

/-! ## Goals -/

/-- An identifier as a node. -/
def Identifier.toNode (identifier : Identifier) : Node := .leaf .identifier identifier.range

/-- An argument as a node. -/
def Argument.toNode (argument : Argument) : Node :=
  let kind : NodeKind :=
    match argument.term with
    | .name _ => .identifier
    | .integer _ => .integerLiteral
    | .real _ => .realLiteral
    | .string _ => .stringLiteral
    | .guid _ => .guidLiteral
  .leaf kind argument.range

/-- A parameter as a node, its type before its argument. -/
def Parameter.toNode (parameter : Parameter) : Node :=
  .mk .parameter parameter.range
    ((parameter.type.map fun type => Node.leaf .typeHint type.range).toList
      ++ [parameter.argument.toNode])

/-- A signature as a node. The parameter that an owner stands for comes before the name. -/
def Signature.toNode (signature : Signature) : Node :=
  let start := signature.identifier.range.span.start
  let (before, after) := signature.parameters.partition fun p => p.range.span.start < start
  .mk .signature signature.range
    (before.map Parameter.toNode ++ signature.identifier.toNode :: after.map Parameter.toNode)

/-- The right side of a comparison as a node. -/
def Operand.toNode : Operand → Node
  | .parameter right => right.toNode
  | .missing range => .leaf .identifier range

/-- A condition as a node. -/
def Condition.toNode (condition : Condition) : Node :=
  match condition.form with
  | .call signature _ => .mk .signatureCondition condition.range [signature.toNode]
  | .comparison _ left right =>
    .mk .operatorCondition condition.range [left.toNode, right.toNode]

/-- The conditions of a rule as a node. -/
def ConditionBlock.toNode (block : ConditionBlock) : Node :=
  .mk .conditionBlock block.range (block.conditions.map Condition.toNode)

/-- An action as a node. -/
def Action.toNode (action : Action) : Node :=
  match action.form with
  | .call signature _ => .mk .signatureAction action.range [signature.toNode]
  | .goalCompleted => .leaf .goalCompletedAction action.range

/-- Actions as a node. -/
def ActionBlock.toNode (block : ActionBlock) : Node :=
  .mk .actionBlock block.range (block.actions.map Action.toNode)

/-- A rule as a node. -/
def Rule.toNode (rule : Rule) : Node :=
  .mk .rule rule.range [rule.head.toNode, rule.conditions.toNode, rule.actions.toNode]

/-- A goal as a node. -/
def Goal.toNode (goal : Goal) : Node :=
  .mk .storyGoal goal.range
    (goal.init.toNode :: goal.rules.map Rule.toNode ++ [goal.exit.toNode])

/-! ## Headers -/

/-- A definition as a node. -/
def Definition.toNode (definition : Definition) : Node :=
  .mk .definition definition.range [definition.signature.toNode]

/-- A header as a node. Definitions and goals may be mixed, so they are put in the order in which
they start. -/
def Header.toNode (header : Header) : Node :=
  let nodes := header.definitions.map Definition.toNode
    ++ header.goals.map fun goal => Node.leaf .divGoal goal.range
  .mk .div header.range
    (nodes.mergeSort fun a b => a.range.span.start ≤ b.range.span.start)

end StoryCheck.Syntax
