import StoryCheck.Proofs.Lists
import StoryCheck.Proofs.Syntax.Acceptance
import StoryCheck.Proofs.Syntax.CallSites
import StoryCheck.Proofs.Token.Respelling

/-!
# Trees without places

What a goal says apart from where it stands. Tokens that count as those of a silent goal are the
tokens of a silent goal that says the same, wherever they stand: it is by no more than the kinds,
values, regions and comments of its tokens that a goal says what it says.

* **`Goal.withoutPlaces`** — a tree without ranges.
* **`IsCarried`** — what counts as the tokens of a part are the tokens of a part that says the same.
* **`isCarried_goal`** — silent goals are carried over.
* **`parseGoal_respelled`** — what is read from a text with patches at names and strings.
-/

namespace StoryCheck.Syntax

/-! ## Trees

Each kind of node without its range, and so without those of its parts. What is left are names,
values, types, directions, kinds, regions and comments, in their order. -/

/-- A name by itself. -/
def Identifier.withoutPlaces (identifier : Identifier) : Identifier :=
  { identifier with range := nowhere }

/-- A term by itself. -/
def Argument.withoutPlaces (argument : Argument) : Argument := { argument with range := nowhere }

/-- A written type by itself. -/
def TypeHint.withoutPlaces (type : TypeHint) : TypeHint := { type with range := nowhere }

/-- A parameter: direction, type and term. -/
def Parameter.withoutPlaces (parameter : Parameter) : Parameter :=
  { parameter with
    type := parameter.type.map (·.withoutPlaces)
    argument := parameter.argument.withoutPlaces
    range := nowhere }

/-- A signature: its name and its parameters in order. The parts of a signature are all there is to
a call. -/
def Signature.withoutPlaces (signature : Signature) : Signature :=
  { identifier := signature.identifier.withoutPlaces
    parameters := signature.parameters.map (·.withoutPlaces)
    range := nowhere }

/-- The right side of a comparison; that it is missing is kept. -/
def Operand.withoutPlaces : Operand → Operand
  | parameter right => .parameter right.withoutPlaces
  | missing _ => .missing nowhere

/-- What a condition asks. -/
def Condition.Form.withoutPlaces : Condition.Form → Condition.Form
  | call signature negated => .call signature.withoutPlaces negated
  | comparison operator left right => .comparison operator left.withoutPlaces right.withoutPlaces

/-- A condition without the place of its NOT. -/
def Condition.withoutPlaces (condition : Condition) : Condition :=
  ⟨condition.form.withoutPlaces, nowhere⟩

/-- What an action does. -/
def Action.Form.withoutPlaces : Action.Form → Action.Form
  | call signature negated => .call signature.withoutPlaces negated
  | goalCompleted => .goalCompleted

/-- An action without the place of its semicolon. -/
def Action.withoutPlaces (action : Action) : Action := ⟨action.form.withoutPlaces, nowhere⟩

/-- Conditions in order. -/
def ConditionBlock.withoutPlaces (block : ConditionBlock) : ConditionBlock :=
  ⟨block.conditions.map (·.withoutPlaces), nowhere⟩

/-- Actions in order. -/
def ActionBlock.withoutPlaces (block : ActionBlock) : ActionBlock :=
  ⟨block.actions.map (·.withoutPlaces), nowhere⟩

/-- A rule with its kind, its region and its comment, which belong to what it says. -/
def Rule.withoutPlaces (rule : Rule) : Rule :=
  { rule with
    head := rule.head.withoutPlaces
    conditions := rule.conditions.withoutPlaces
    actions := rule.actions.withoutPlaces
    range := nowhere }

/-- An option by name and value. -/
def GoalOption.withoutPlaces (option : GoalOption) : GoalOption := { option with range := nowhere }

/-- A whole goal. Two goals that are the same without places differ in nothing but spacing, and in
comments that go to no rule. -/
def Goal.withoutPlaces (goal : Goal) : Goal :=
  { options := goal.options.map (·.withoutPlaces)
    init := goal.init.withoutPlaces
    rules := goal.rules.map (·.withoutPlaces)
    exit := goal.exit.withoutPlaces
    range := nowhere }

/-! ## Parts that are carried over

A part of the grammar is its tokens in a row. So tokens that count as those of the part fall apart
in the same way, and each piece is carried over by itself. The proofs below all have this shape:
take the tokens of the others apart, carry the pieces over, put the part together again. -/

/-- What counts as the tokens of a part are the tokens of a part with the same meaning. -/
def IsCarried {α β : Type} (tokens : α → List Token) (meaning : α → β) : Prop :=
  ∀ part others, List.Forall₂ Token.CountsAs (tokens part) others →
    ∃ other, tokens other = others ∧ meaning other = meaning part

namespace IsCarried

variable {α β γ δ : Type} {tokens : α → List Token} {meaning : α → β}

/-- Parts in a row are carried over one by one. -/
theorem list (h : IsCarried tokens meaning) :
    IsCarried (fun parts : List α => parts.flatMap tokens) fun parts => parts.map meaning := by
  intro parts
  -- On the list; the tokens of the first part are a front of the tokens there are.
  induction parts with
  | nil =>
    rintro _ ⟨⟩
    exact ⟨[], rfl, rfl⟩
  | cons part parts ih =>
    intro others hcount
    obtain ⟨first, more, hfirst, hmore, rfl⟩ := exists_of_forall₂_append hcount
    obtain ⟨other, rfl, hother⟩ := h part first hfirst
    obtain ⟨rest, rfl, hrest⟩ := ih more hmore
    exact ⟨other :: rest, rfl, congrArg₂ List.cons hother hrest⟩

/-- A part that may be missing: there are no tokens then, and none can count as it. -/
theorem option (h : IsCarried tokens meaning) :
    IsCarried (fun part : Option α => part.toList.flatMap tokens) fun part => part.map meaning := by
  rintro (_ | part) others hcount
  · cases hcount
    exact ⟨none, rfl, rfl⟩
  · obtain ⟨other, htokens, hother⟩ := h part others (by simpa using hcount)
    exact ⟨some other, by simpa using htokens, congrArg some hother⟩

end IsCarried

section Tokens

variable {kind : TokenKind} {back others : List Token}

/-- What counts as a token of a kind with others behind it. -/
theorem exists_token (token : TokenOf kind)
    (h : List.Forall₂ Token.CountsAs (token.1 :: back) others) :
    ∃ (other : TokenOf kind) (more : List Token), List.Forall₂ Token.CountsAs back more
      ∧ token.1.CountsAs other ∧ others = other.1 :: more := by
  cases h with
  | cons hcount hmore => exact ⟨⟨_, hcount.kind.trans token.2⟩, _, hmore, hcount, rfl⟩

/-- A single token that may be missing. All that matters of it is whether it is there. -/
theorem isCarried_optional :
    IsCarried (fun token : Option (TokenOf kind) => token.toList.map (·.1)) (·.isSome) := by
  rintro (_ | token) others hcount
  · cases hcount
    exact ⟨none, rfl, rfl⟩
  · obtain ⟨other, _, ⟨⟩, -, rfl⟩ := exists_token token hcount
    exact ⟨some other, rfl, rfl⟩

end Tokens

/-! ## Parameters

A piece of the grammar is carried over if from tokens that count as its own another such piece can
be made, whose tree is the same but for places. -/

/-- Terms, by their kinds. A number has to be read anew from its digits, which are the same. -/
theorem isCarried_argument :
    IsCarried (fun argument : WrittenArgument => [argument.token]) (·.tree.withoutPlaces) := by
  intro argument others hcount
  cases argument with
  | name token =>
    obtain ⟨other, _, ⟨⟩, hother, rfl⟩ := exists_token token hcount
    exact ⟨.name other, rfl, congrArg (fun value => Argument.mk (.name value) nowhere) hother.value⟩
  | guid token =>
    obtain ⟨other, _, ⟨⟩, hother, rfl⟩ := exists_token token hcount
    exact ⟨.guid other, rfl, congrArg (fun value => Argument.mk (.guid value) nowhere) hother.value⟩
  | integer token value reads =>
    obtain ⟨other, _, ⟨⟩, hother, rfl⟩ := exists_token token hcount
    exact ⟨.integer other value (by rw [hother.value, reads]), rfl, rfl⟩
  | real token =>
    obtain ⟨other, _, ⟨⟩, hother, rfl⟩ := exists_token token hcount
    exact ⟨.real other, rfl, congrArg
      (fun value : String => Argument.mk (.real (Decimal.doubleBits value.toList)) nowhere) hother.value⟩
  | string token =>
    obtain ⟨other, _, ⟨⟩, hother, rfl⟩ := exists_token token hcount
    exact ⟨.string other, rfl, congrArg (fun value => Argument.mk (.string value) nowhere) hother.value⟩

/-- A direction is told by the value of its token. -/
theorem isCarried_flow : IsCarried (fun flow : WrittenFlow => [flow.token.1]) (·.flow) := by
  rintro ⟨token, flow, reads⟩ others hcount
  obtain ⟨other, _, ⟨⟩, hother, rfl⟩ := exists_token token hcount
  exact ⟨⟨other, flow, by rw [hother.value, reads]⟩, rfl, rfl⟩

/-- A type in brackets. -/
theorem isCarried_type : IsCarried WrittenType.tokens (·.tree.withoutPlaces) := by
  rintro ⟨opening, name, closing⟩ others h
  obtain ⟨opening', _, h₁, -, rfl⟩ := exists_token opening h
  obtain ⟨name', _, h₂, hname, rfl⟩ := exists_token name h₁
  obtain ⟨closing', _, ⟨⟩, -, rfl⟩ := exists_token closing h₂
  exact ⟨⟨opening', name', closing'⟩, rfl, congrArg (TypeHint.mk · nowhere) hname.value⟩

/-- A parameter: three pieces, of which two may be missing. -/
theorem isCarried_parameter : IsCarried WrittenParameter.tokens (·.tree.withoutPlaces) := by
  rintro ⟨flow, type, argument⟩ others h
  simp only [WrittenParameter.tokens, List.map_eq_flatMap] at h
  obtain ⟨_, _, h₁, h₂, rfl⟩ := exists_of_forall₂_append h
  obtain ⟨_, _, h₃, h₄, rfl⟩ := exists_of_forall₂_append h₁
  obtain ⟨flow', rfl, hflow⟩ := isCarried_flow.option flow _ h₃
  obtain ⟨type', rfl, htype⟩ := isCarried_type.option type _ h₄
  obtain ⟨argument', rfl, hargument⟩ := isCarried_argument argument _ h₂
  refine ⟨⟨flow', type', argument'⟩, ?_, ?_⟩
  · simp only [WrittenParameter.tokens, List.map_eq_flatMap]
  · simp only [Parameter.withoutPlaces, WrittenParameter.tree, Option.map_map, Function.comp_def,
      hflow, htype, hargument]

/-- Parameters with commas between them. -/
theorem isCarried_parameters :
    IsCarried WrittenParameters.tokens fun parameters => parameters.trees.map (·.withoutPlaces) := by
  intro parameters
  -- The grammar of parameters is a recursion, and so is the proof.
  induction parameters with
  | one parameter =>
    intro others h
    obtain ⟨other, rfl, hother⟩ := isCarried_parameter parameter _ h
    exact ⟨.one other, rfl, congrArg (fun tree => [tree]) hother⟩
  | more parameter comma rest ih =>
    intro others h
    obtain ⟨_, _, h₁, h₂, rfl⟩ := exists_of_forall₂_append h
    obtain ⟨other, rfl, hother⟩ := isCarried_parameter parameter _ h₁
    obtain ⟨comma', _, h₃, -, rfl⟩ := exists_token comma h₂
    obtain ⟨rest', rfl, hrest⟩ := ih _ h₃
    exact ⟨.more other comma' rest', rfl, congrArg₂ List.cons hother hrest⟩

/-! ## Signatures

The name of a signature is one of its tokens, and what it calls is told by that and the number of
parameters. -/

/-- The name in front of a dot, and the dot. -/
theorem isCarried_owner :
    IsCarried (fun (owner, dot) => [owner.1, dot.1] : TokenOf .identifier × TokenOf .dot → List Token)
      fun owner => (ownerParameter owner.1).withoutPlaces := by
  rintro ⟨owner, dot⟩ others h
  obtain ⟨owner', _, h₁, howner, rfl⟩ := exists_token owner h
  obtain ⟨dot', _, ⟨⟩, -, rfl⟩ := exists_token dot h₁
  refine ⟨(owner', dot'), rfl, ?_⟩
  simp only [ownerParameter, Parameter.withoutPlaces, Argument.withoutPlaces, howner.value]

/-- The parameters are those of the owner and those in the brackets. -/
theorem WrittenSignature.withoutPlaces_tree (signature : WrittenSignature) :
    signature.tree.withoutPlaces =
      { identifier := ⟨signature.name.1.value, nowhere⟩
        parameters :=
          (signature.owner.map fun owner => (ownerParameter owner.1).withoutPlaces).toList
            ++ (signature.parameters.map (·.trees.map (·.withoutPlaces))).toList.flatten
        range := nowhere } := by
  obtain ⟨_ | owner, name, opening, _ | parameters, closing⟩ := signature <;>
    simp [tree, Signature.withoutPlaces, Identifier.withoutPlaces]

/-- A signature, with or without an owner and parameters. -/
theorem isCarried_signature : IsCarried WrittenSignature.tokens (·.tree.withoutPlaces) := by
  rintro ⟨owner, name, opening, parameters, closing⟩ others h
  obtain ⟨_, _, h₁, h₂, rfl⟩ := exists_of_forall₂_append h
  obtain ⟨_, _, h₃, h₄, rfl⟩ := exists_of_forall₂_append h₁
  obtain ⟨owner', rfl, howner⟩ := isCarried_owner.option owner _ h₃
  obtain ⟨name', _, h₅, hname, rfl⟩ := exists_token name h₄
  obtain ⟨opening', _, h₆, -, rfl⟩ := exists_token opening h₅
  obtain ⟨parameters', rfl, hparameters⟩ := isCarried_parameters.option parameters _ h₆
  obtain ⟨closing', _, ⟨⟩, -, rfl⟩ := exists_token closing h₂
  refine ⟨⟨owner', name', opening', parameters', closing'⟩, rfl, ?_⟩
  simp only [WrittenSignature.withoutPlaces_tree, hname.value, howner, hparameters]

/-! ## Conditions and actions

Keywords and signs are told by the kinds of their tokens, which are the same. -/

/-- A comparison sign is told by the kind of its token. -/
theorem isCarried_operator :
    IsCarried (fun operator : WrittenOperator => [operator.token]) (·.operator) := by
  rintro ⟨token, operator, reads⟩ others (_ | ⟨hother, _ | _⟩)
  exact ⟨⟨_, operator, by rw [hother.kind, reads]⟩, rfl, rfl⟩

/-- A condition of either form. -/
theorem isCarried_condition : IsCarried WrittenCondition.tokens (·.tree.withoutPlaces) := by
  intro condition others h
  cases condition with
  | call negation signature =>
    obtain ⟨_, _, h₁, h₂, rfl⟩ := exists_of_forall₂_append h
    obtain ⟨negation', rfl, hnegation⟩ := isCarried_optional negation _ h₁
    obtain ⟨signature', rfl, hsignature⟩ := isCarried_signature signature _ h₂
    refine ⟨.call negation' signature', rfl, ?_⟩
    simp only [WrittenCondition.tree, Condition.withoutPlaces, WrittenCondition.form,
      Condition.Form.withoutPlaces, hsignature, hnegation]
  -- The sign is a single token, so it is split off as a list of one.
  | comparison left operator right =>
    obtain ⟨_, _, h₁, h₂, rfl⟩ := exists_of_forall₂_append h
    rw [← List.singleton_append] at h₂
    obtain ⟨_, _, h₃, h₄, rfl⟩ := exists_of_forall₂_append h₂
    obtain ⟨left', rfl, hleft⟩ := isCarried_parameter left _ h₁
    obtain ⟨operator', rfl, hoperator⟩ := isCarried_operator operator _ h₃
    obtain ⟨right', rfl, hright⟩ := isCarried_parameter right _ h₄
    refine ⟨.comparison left' operator' right', rfl, ?_⟩
    simp only [WrittenCondition.tree, Condition.withoutPlaces, WrittenCondition.form,
      Condition.Form.withoutPlaces, Operand.withoutPlaces, hleft, hoperator, hright]

/-- A condition with the AND in front of it. -/
theorem isCarried_conjunct : IsCarried WrittenConjunct.tokens (·.tree.withoutPlaces) := by
  rintro ⟨and, condition⟩ others h
  obtain ⟨and', _, h₁, -, rfl⟩ := exists_token and h
  obtain ⟨condition', rfl, hcondition⟩ := isCarried_condition condition _ h₁
  exact ⟨⟨and', condition'⟩, rfl, hcondition⟩

/-- An action of either form, with or without a semicolon behind it. -/
theorem isCarried_action : IsCarried WrittenAction.tokens (·.tree.withoutPlaces) := by
  intro action others h
  cases action with
  | goalCompleted word semicolon =>
    obtain ⟨word', _, h₁, -, rfl⟩ := exists_token word h
    obtain ⟨semicolon', _, ⟨⟩, -, rfl⟩ := exists_token semicolon h₁
    exact ⟨.goalCompleted word' semicolon', rfl, rfl⟩
  | call negation signature semicolon =>
    obtain ⟨_, _, h₁, h₂, rfl⟩ := exists_of_forall₂_append h
    obtain ⟨_, _, h₃, h₄, rfl⟩ := exists_of_forall₂_append h₁
    obtain ⟨negation', rfl, hnegation⟩ := isCarried_optional negation _ h₃
    obtain ⟨signature', rfl, hsignature⟩ := isCarried_signature signature _ h₄
    obtain ⟨semicolon', _, ⟨⟩, -, rfl⟩ := exists_token semicolon h₂
    refine ⟨.call negation' signature' semicolon', rfl, ?_⟩
    simp only [WrittenAction.tree, Action.withoutPlaces, WrittenAction.form,
      Action.Form.withoutPlaces, hsignature, hnegation]

/-- A block of actions takes its range from its neighbours, which does not show any more. -/
theorem WrittenAction.withoutPlaces_block (actions : List WrittenAction) (next : Token) :
    (block actions next).withoutPlaces = ⟨actions.map (·.tree.withoutPlaces), nowhere⟩ := by
  simp only [block, ActionBlock.withoutPlaces, List.map_map, Function.comp_def]

/-! ## Rules

A rule takes up the comment and the region of its keyword. So these have to be kept as well. -/

/-- A rule. This is the only part that takes up comments and regions: those of its keyword. -/
theorem isCarried_rule : IsCarried WrittenRule.tokens (·.tree.withoutPlaces) := by
  rintro ⟨kind, keyword, head, conditions, mark, action, actions⟩ others h
  obtain ⟨_, _, h₁, h₂, rfl⟩ := exists_of_forall₂_append h
  obtain ⟨_, _, h₃, h₄, rfl⟩ := exists_of_forall₂_append h₁
  obtain ⟨keyword', _, h₅, hkeyword, rfl⟩ := exists_token keyword h₃
  obtain ⟨head', rfl, hhead⟩ := isCarried_signature head _ h₅
  obtain ⟨conditions', rfl, hconditions⟩ := isCarried_conjunct.list conditions _ h₄
  obtain ⟨mark', _, h₆, -, rfl⟩ := exists_token mark h₂
  obtain ⟨_ | ⟨action', actions'⟩, rfl, hactions⟩ := isCarried_action.list (action :: actions) _ h₆
  · cases hactions
  -- The keyword is neither a name nor a bracket, so its comment is the same.
  have hcomment : keyword'.1.comment = keyword.1.comment :=
    hkeyword.comment (by rw [keyword.2]; cases kind <;> decide)
  refine ⟨⟨kind, keyword', head', conditions', mark', action', actions'⟩, rfl, ?_⟩
  simp only [WrittenRule.tree, Rule.withoutPlaces, ConditionBlock.withoutPlaces, List.map_map,
    Function.comp_def, WrittenAction.withoutPlaces_block, hhead, hconditions, hactions, hcomment,
    hkeyword.region]

/-! ## Goals

From the pieces to the whole goal, and from there to the text that is read again. -/

/-- An option whose value is accepted; being accepted hangs on name and value alone. -/
theorem isCarried_goalOption {placement : OptionPlacement} :
    IsCarried (fun option : SilentOption placement => option.tokens) (·.tree.withoutPlaces) := by
  rintro ⟨name, token, value, reads, accepted, semicolon⟩ others h
  obtain ⟨name', _, h₁, hname, rfl⟩ := exists_token name h
  obtain _ | ⟨hother, h₂⟩ := h₁
  obtain ⟨semicolon', rfl, -⟩ := isCarried_optional semicolon _ h₂
  refine ⟨⟨name', _, value, ?_, by rwa [hname.value], semicolon'⟩, rfl, ?_⟩
  · rwa [optionValue?, hother.kind, hother.value]
  · simp only [SilentOption.tree, GoalOption.withoutPlaces, hname.value]

/-- **Silent goals are carried over.** -/
theorem isCarried_goal : IsCarried SilentGoal.tokens (·.tree.withoutPlaces) := by
  rintro ⟨header, initSection, init, kbSection, rules, exitSection, exit, endSection, footer⟩ others h
  -- In front of the rules, the rules, and behind them; then each of these piece by piece.
  obtain ⟨_, _, hfront, hrest, rfl⟩ := exists_of_forall₂_append h
  obtain ⟨_, _, hstart, hkb, rfl⟩ := exists_of_forall₂_append hfront
  obtain ⟨_, _, hoptions, h₁, rfl⟩ := exists_of_forall₂_append hstart
  obtain ⟨header', rfl, hheader⟩ := isCarried_goalOption.list header _ hoptions
  obtain ⟨initSection', _, h₂, -, rfl⟩ := exists_token initSection h₁
  obtain ⟨init', rfl, hinit⟩ := isCarried_action.list init _ h₂
  obtain ⟨kbSection', _, ⟨⟩, -, rfl⟩ := exists_token kbSection hkb
  obtain ⟨_, _, h₃, hback, rfl⟩ := exists_of_forall₂_append hrest
  obtain ⟨rules', rfl, hrules⟩ := isCarried_rule.list rules _ h₃
  obtain ⟨_, _, h₄, hend, rfl⟩ := exists_of_forall₂_append hback
  obtain ⟨exitSection', _, h₅, -, rfl⟩ := exists_token exitSection h₄
  obtain ⟨exit', rfl, hexit⟩ := isCarried_action.list exit _ h₅
  obtain ⟨endSection', _, h₆, -, rfl⟩ := exists_token endSection hend
  obtain ⟨footer', rfl, hfooter⟩ := isCarried_goalOption.list footer _ h₆
  refine ⟨⟨header', initSection', init', kbSection', rules', exitSection', exit', endSection', footer'⟩,
    rfl, ?_⟩
  simp only [SilentGoal.tree, Goal.withoutPlaces, List.map_append, List.map_map, Function.comp_def,
    WrittenAction.withoutPlaces_block, hheader, hinit, hrules, hexit, hfooter]

/-- A text with patches is read without a report, as the silent goal of the respelled tokens. -/
theorem parseGoal_respelled {text : String} {before : TokenKind} {goal respelled : SilentGoal}
    {patches : List Patch} (htokens : (TokenList.ofText text).tokens = goal.tokens)
    (hlexical : (TokenList.ofText text).reports = [])
    (h : Respells before goal.tokens patches respelled.tokens) :
    let patched := parseGoal (String.ofList (Patch.applyAll patches text.toList))
    patched.diagnostics = [] ∧ patched.tree.withoutPlaces = respelled.tree.withoutPlaces := by
  rw [← htokens] at h
  obtain ⟨hreports, hcount⟩ := TokenList.respells_ofText h hlexical
  obtain ⟨other, hother, htree⟩ := isCarried_goal respelled _ hcount
  obtain ⟨after, hrun, hclean⟩ := goal_run_silent other hother.symm
  dsimp only
  rw [parseGoal, parseGoalTokens_of_run hrun, hreports, hclean]
  exact ⟨by simp [Diagnostic.sortBySpan], htree⟩

end StoryCheck.Syntax
