import StoryCheck.Syntax.GoalGrammar

/-!
# Written goals

The grammar of goals as data. A written goal says of each of its tokens which part of the goal it
is, so that it is a derivation of its tokens. What cannot be written cannot be built: a keyword
carries the proof that it is one, an integer that it fits, an option that it is known where it
stands.

* **`WrittenGoal.tokens`** — the tokens, in order.
* **`WrittenGoal.tree`** — the tree that the tokens stand for.
* **`rangeOf`** — from the first to the last token of a part.
-/

namespace StoryCheck.Syntax

/-- A token of a kind. -/
abbrev TokenOf (kind : TokenKind) := {token : Token // token.kind = kind}

/-- From the first to the last of some tokens; the place of the next token if there are none. -/
def rangeOf (tokens : List Token) (next : Token := {}) : Range :=
  match tokens.head?, tokens.getLast? with
  | some first, some last =>
    ⟨⟨first.range.span.start, last.range.span.stop⟩, first.range.first, last.range.last⟩
  | _, _ => .empty next.range.span.start next.range.first

/-! ## Parameters

The terms of the language are single tokens. What is written of a parameter keeps apart the parts
that may be missing, so that the tree can say which were there. -/

/-- An argument: one token. -/
inductive WrittenArgument where
  | name (token : TokenOf .identifier)
  | guid (token : TokenOf .guid)
  /-- An integer that fits 64 bits with sign. -/
  | integer (token : TokenOf .integer) (value : Int)
    (reads : Decimal.int64? token.1.value.toList = some value)
  | real (token : TokenOf .real)
  | string (token : TokenOf .string)

namespace WrittenArgument

/-- The one token of an argument. -/
def token : WrittenArgument → Token
  | name token => token
  | guid token => token
  | integer token _ _ => token
  | real token => token
  | string token => token

/-- The term that the token stands for. The value of an integer is part of what is written, as it
has to be representable. -/
def term : WrittenArgument → Term
  | name token => .name token.1.value
  | guid token => .guid token.1.value
  | integer _ value _ => .integer value
  | real token => .real (Decimal.doubleBits token.1.value.toList)
  | string token => .string token.1.value

/-- The argument at its place. -/
def tree (argument : WrittenArgument) : Argument := ⟨argument.term, argument.token.range⟩

end WrittenArgument

/-- The word for a direction. -/
def Flow.word : Flow → String
  | input => "in"
  | output => "out"

/-- A direction in square brackets. -/
structure WrittenFlow where
  token : TokenOf .marker
  flow : Flow
  reads : String.ofList (markerWord token.1.value) = flow.word

/-- A type in brackets. -/
structure WrittenType where
  opening : TokenOf .lParen
  name : TokenOf .identifier
  closing : TokenOf .rParen

namespace WrittenType

/-- The tokens of a type, brackets included. -/
def tokens (type : WrittenType) : List Token := [type.opening.1, type.name.1, type.closing.1]

/-- The type with the range of all three tokens. -/
def tree (type : WrittenType) : TypeHint := ⟨type.name.1.value, rangeOf type.tokens⟩

end WrittenType

/-- `[direction] (TYPE) argument`, of which only the argument must be there. -/
structure WrittenParameter where
  flow : Option WrittenFlow
  type : Option WrittenType
  argument : WrittenArgument

namespace WrittenParameter

/-- The tokens of a parameter: flow, type, argument. -/
def tokens (parameter : WrittenParameter) : List Token :=
  parameter.flow.toList.map (·.token.1) ++ parameter.type.toList.flatMap (·.tokens)
    ++ [parameter.argument.token]

/-- The parameter that the tokens stand for. -/
def tree (parameter : WrittenParameter) : Parameter :=
  { flow := parameter.flow.map (·.flow)
    type := parameter.type.map (·.tree)
    argument := parameter.argument.tree
    range := rangeOf parameter.tokens }

end WrittenParameter

/-- One or more parameters with commas between them. -/
inductive WrittenParameters where
  | one (parameter : WrittenParameter)
  | more (parameter : WrittenParameter) (comma : TokenOf .comma) (rest : WrittenParameters)

namespace WrittenParameters

/-- The tokens of a list of parameters, with the commas. -/
def tokens : WrittenParameters → List Token
  | one parameter => parameter.tokens
  | more parameter comma rest => parameter.tokens ++ comma.1 :: rest.tokens

/-- The parameters of the list. -/
def trees : WrittenParameters → List Parameter
  | one parameter => [parameter.tree]
  | more parameter _ rest => parameter.tree :: rest.trees

end WrittenParameters

/-! ## Signatures

What stands in front of a dot is an owner, and the parser makes a parameter of it. A signature
therefore has one parameter more than there are between its brackets. -/

/-- A token that is taken for a name gives its text to it, unchanged. -/
@[simp] theorem Identifier.name_ofToken (token : Token) :
    (Identifier.ofToken token).name = token.value := rfl

/-- The name stands where the token does. -/
@[simp] theorem Identifier.range_ofToken (token : Token) :
    (Identifier.ofToken token).range = token.range := rfl

/-- An owner is handed over under its own name. -/
theorem ownerParameter_name? (token : Token) :
    (ownerParameter token).argument.name? = some token.value := rfl

/-- `Name(parameters)` or `Owner.Name(parameters)`. -/
structure WrittenSignature where
  owner : Option (TokenOf .identifier × TokenOf .dot)
  name : TokenOf .identifier
  opening : TokenOf .lParen
  parameters : Option WrittenParameters
  closing : TokenOf .rParen

namespace WrittenSignature

/-- The tokens of a signature, from the owner or the name to the closing bracket. -/
def tokens (signature : WrittenSignature) : List Token :=
  (signature.owner.toList.flatMap fun (owner, dot) => [owner.1, dot.1])
    ++ signature.name.1 :: signature.opening.1 :: signature.parameters.toList.flatMap (·.tokens)
    ++ [signature.closing.1]

/-- The owner is the first parameter. -/
def tree (signature : WrittenSignature) : Signature :=
  { identifier := .ofToken signature.name
    parameters := signature.owner.toList.map (fun (owner, _) => ownerParameter owner)
      ++ signature.parameters.toList.flatMap (·.trees)
    range := rangeOf signature.tokens }

/-- A signature is called by the name in front of its bracket, whoever the owner is. -/
theorem name_tree (signature : WrittenSignature) :
    signature.tree.identifier.name = signature.name.1.value := Identifier.name_ofToken _

/-- An owner counts as one more parameter. -/
theorem arity_tree (signature : WrittenSignature) : signature.tree.arity
    = signature.owner.toList.length + (signature.parameters.toList.flatMap (·.trees)).length := by
  simp [Signature.arity, tree]

/-- What stands in front of the dot is named by the first parameter. -/
theorem owner_tree {signature : WrittenSignature} {owner : TokenOf .identifier} {dot : TokenOf .dot}
    (howner : signature.owner = some (owner, dot)) :
    signature.tree.parameters.head?.bind (·.argument.name?) = some owner.1.value := by
  rw [tree, howner]
  exact ownerParameter_name? owner.1

end WrittenSignature

/-! ## Conditions and actions

The written forms come with their tokens and their trees, both read off in one place. -/

/-- A comparison sign. -/
structure WrittenOperator where
  token : Token
  operator : Operator
  reads : Operator.ofKind? token.kind = some operator

/-- A call, perhaps with NOT in front, or a comparison. -/
inductive WrittenCondition where
  | call (negation : Option (TokenOf .not)) (signature : WrittenSignature)
  | comparison (left : WrittenParameter) (operator : WrittenOperator) (right : WrittenParameter)

namespace WrittenCondition

/-- The tokens of a condition. -/
def tokens : WrittenCondition → List Token
  | call negation signature => negation.toList.map (·.1) ++ signature.tokens
  | comparison left operator right => left.tokens ++ operator.token :: right.tokens

/-- What a condition asks: a call or a comparison. -/
def form : WrittenCondition → Condition.Form
  | call negation signature => .call signature.tree negation.isSome
  | comparison left operator right =>
    .comparison operator.operator left.tree (.parameter right.tree)

/-- The condition at its place. -/
def tree (condition : WrittenCondition) : Condition := ⟨condition.form, rangeOf condition.tokens⟩

end WrittenCondition

/-- `GoalCompleted;`, or a call with a semicolon behind it and perhaps NOT in front. -/
inductive WrittenAction where
  | goalCompleted (word : TokenOf .goalCompleted) (semicolon : TokenOf .semicolon)
  | call (negation : Option (TokenOf .not)) (signature : WrittenSignature)
    (semicolon : TokenOf .semicolon)

namespace WrittenAction

/-- The tokens of an action, with its semicolon. -/
def tokens : WrittenAction → List Token
  | goalCompleted word semicolon => [word.1, semicolon.1]
  | call negation signature semicolon =>
    negation.toList.map (·.1) ++ signature.tokens ++ [semicolon.1]

/-- What an action does. -/
def form : WrittenAction → Action.Form
  | goalCompleted _ _ => .goalCompleted
  | call negation signature _ => .call signature.tree negation.isSome

/-- The action at its place. -/
def tree (action : WrittenAction) : Action := ⟨action.form, rangeOf action.tokens⟩

/-- The block that actions make up in front of a token. -/
def block (actions : List WrittenAction) (next : Token := {}) : ActionBlock :=
  ⟨actions.map tree, rangeOf (actions.flatMap tokens) next⟩

end WrittenAction

/-! ## Rules

A rule has one action at least, and its conditions start with AND, each of them; so both are lists
behind a first thing. -/

/-- The keyword of a kind of rule. -/
def RuleKind.opener : RuleKind → TokenKind
  | ifRule => .if
  | proc => .proc
  | query => .qry

/-- A condition behind AND. -/
structure WrittenConjunct where
  and : TokenOf .and
  condition : WrittenCondition

/-- The tokens of a condition with the word in front of it. -/
def WrittenConjunct.tokens (conjunct : WrittenConjunct) : List Token :=
  conjunct.and.1 :: conjunct.condition.tokens

/-- The condition without that word. -/
def WrittenConjunct.tree (conjunct : WrittenConjunct) : Condition := conjunct.condition.tree

/-- `IF head AND .. THEN actions`, with at least one action. -/
structure WrittenRule where
  kind : RuleKind
  keyword : TokenOf kind.opener
  head : WrittenSignature
  conditions : List WrittenConjunct
  mark : TokenOf .then
  action : WrittenAction
  actions : List WrittenAction

namespace WrittenRule

/-- The tokens of a rule, from its keyword to its last semicolon. -/
def tokens (rule : WrittenRule) : List Token :=
  rule.keyword.1 :: rule.head.tokens ++ rule.conditions.flatMap (·.tokens)
    ++ rule.mark.1 :: (rule.action :: rule.actions).flatMap (·.tokens)

/-- The rule that the tokens stand for. A comment in front of it and the region it stands in are
told by its keyword. -/
def tree (rule : WrittenRule) : Rule :=
  { kind := rule.kind
    head := rule.head.tree
    conditions :=
      { conditions := rule.conditions.map (·.tree)
        range := rangeOf (rule.conditions.flatMap (·.tokens)) rule.mark }
    actions := WrittenAction.block (rule.action :: rule.actions)
    region := rule.keyword.1.region
    comment := rule.keyword.1.comment
    range := rangeOf rule.tokens }

end WrittenRule

/-! ## Goals

The goal with its options. Only known options with values that are admitted may be written. -/

/-- The options there are, each with the place where it belongs and what may be its value. -/
inductive GoalOption.IsKnown : OptionPlacement → String → Token → OptionValue → Prop
  | version {token : Token} (kind : token.kind = .integer)
    (reads : Decimal.int64? token.value.toList = some 1) :
    IsKnown .header "Version" token (.integer 1)
  | combiner {token : Token} (kind : token.kind = .identifier) (reads : token.value = "SGC_AND") :
    IsKnown .header "SubGoalCombiner" token (.identifier "SGC_AND")
  | parent {token : Token} (kind : token.kind = .string) :
    IsKnown .footer "ParentTargetEdge" token (.string token.value)

/-- A known option with its value and perhaps a semicolon. -/
structure WrittenOption (placement : OptionPlacement) where
  name : TokenOf .identifier
  token : Token
  value : OptionValue
  isKnown : GoalOption.IsKnown placement name.1.value token value
  semicolon : Option (TokenOf .semicolon)

namespace WrittenOption

variable {placement : OptionPlacement}

/-- The tokens of an option, with its semicolon if there is one. -/
def tokens (option : WrittenOption placement) : List Token :=
  option.name.1 :: option.token :: option.semicolon.toList.map (·.1)

/-- The option that the tokens stand for. -/
def tree (option : WrittenOption placement) : GoalOption :=
  ⟨option.name.1.value, option.value, placement, rangeOf option.tokens⟩

end WrittenOption

/-- `options INITSECTION actions KBSECTION rules EXITSECTION actions ENDEXITSECTION options`. -/
structure WrittenGoal where
  header : List (WrittenOption .header)
  initSection : TokenOf .initSection
  init : List WrittenAction
  kbSection : TokenOf .kbSection
  rules : List WrittenRule
  exitSection : TokenOf .exitSection
  exit : List WrittenAction
  endExitSection : TokenOf .endExitSection
  footer : List (WrittenOption .footer)

namespace WrittenGoal

/-- The tokens of a goal in the order of the text. -/
def tokens (goal : WrittenGoal) : List Token :=
  goal.header.flatMap (·.tokens)
    ++ goal.initSection.1 :: goal.init.flatMap (·.tokens)
    ++ goal.kbSection.1 :: goal.rules.flatMap (·.tokens)
    ++ goal.exitSection.1 :: goal.exit.flatMap (·.tokens)
    ++ goal.endExitSection.1 :: goal.footer.flatMap (·.tokens)

/-- The tokens of a goal in front of its rules. -/
def front (goal : WrittenGoal) : List Token :=
  goal.header.flatMap (·.tokens)
    ++ goal.initSection.1 :: goal.init.flatMap (·.tokens) ++ [goal.kbSection.1]

/-- The tokens of a goal behind its rules. -/
def back (goal : WrittenGoal) : List Token :=
  goal.exitSection.1 :: goal.exit.flatMap (·.tokens)
    ++ goal.endExitSection.1 :: goal.footer.flatMap (·.tokens)

/-- The same with the rules set apart. -/
theorem tokens_eq (goal : WrittenGoal) :
    goal.tokens = goal.front ++ (goal.rules.flatMap (·.tokens) ++ goal.back) := by
  simp [tokens, front, back]

/-- The tree that the tokens stand for. Options behind the goal follow those in front of it. -/
def tree (goal : WrittenGoal) : Goal :=
  { options := goal.header.map (·.tree) ++ goal.footer.map (·.tree)
    init := WrittenAction.block goal.init goal.kbSection
    rules := goal.rules.map (·.tree)
    exit := WrittenAction.block goal.exit goal.endExitSection
    range := rangeOf goal.tokens }

end WrittenGoal

end StoryCheck.Syntax
