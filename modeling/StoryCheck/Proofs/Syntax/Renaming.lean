import StoryCheck.Proofs.Syntax.WithoutPlaces
import StoryCheck.Symbol.Table

/-!
# Calls with another name

A goal in which the calls of a symbol have another name, as a tree and as a text. In the text the new
name is put in place of the old one at every call of the symbol, and nowhere else; what is read then
is the tree with the new name, wherever its parts stand.

* **`Goal.renamed`** — a tree in which the calls of a symbol have another name.
* **`Respells.goal`** — a silent goal with the new name put in at these calls.
* **`parseGoal_renamed`** — what is read from the text then.
-/

namespace StoryCheck

namespace Syntax

/-! ## Trees

The same is said of every part of a tree: its calls of the symbol get the new name, and nothing else
changes. -/

/-- Whether a signature is a call of a symbol. Without a name it calls nothing. -/
def Signature.Calls (signature : Signature) (key : SymbolKey) : Prop :=
  signature.identifier.name ≠ "" ∧ ⟨signature.identifier.name, signature.arity⟩ = key

instance (signature : Signature) (key : SymbolKey) : Decidable (signature.Calls key) :=
  inferInstanceAs (Decidable (_ ∧ _))

/-- Another name for a signature, if it is a call of the symbol. -/
def Signature.renamed (key : SymbolKey) (name : String) (signature : Signature) : Signature :=
  if signature.Calls key then
    { signature with identifier := { signature.identifier with name } }
  else signature

/-- A condition whose call, if it is one of the symbol, has the new name. Comparisons call nothing. -/
def Condition.renamed (key : SymbolKey) (name : String) (condition : Condition) : Condition :=
  match condition.form with
  | .call signature negated => { condition with form := .call (signature.renamed key name) negated }
  | .comparison .. => condition

/-- An action likewise. The completion of the goal calls nothing. -/
def Action.renamed (key : SymbolKey) (name : String) (action : Action) : Action :=
  match action.form with
  | .call signature negated => { action with form := .call (signature.renamed key name) negated }
  | .goalCompleted => action

/-- A block of actions, one by one. -/
def ActionBlock.renamed (key : SymbolKey) (name : String) (block : ActionBlock) : ActionBlock :=
  { block with actions := block.actions.map (·.renamed key name) }

/-- A rule in its head, its conditions and its actions. -/
def Rule.renamed (key : SymbolKey) (name : String) (rule : Rule) : Rule :=
  { rule with
    head := rule.head.renamed key name
    conditions :=
      { rule.conditions with conditions := rule.conditions.conditions.map (·.renamed key name) }
    actions := rule.actions.renamed key name }

/-- The calls of a symbol have another name, and all else is the same. -/
def Goal.renamed (key : SymbolKey) (name : String) (goal : Goal) : Goal :=
  { goal with
    init := goal.init.renamed key name
    rules := goal.rules.map (·.renamed key name)
    exit := goal.exit.renamed key name }

/-! ## Written goals

What is written can be renamed as well: the token of the name has another value then, and all tokens
stay where they were. So the tree of what was renamed is the renamed tree up to places. -/

namespace WrittenSignature

variable {key : SymbolKey} {name : String}

/-- A signature as it is written with the new name, if it calls the symbol. -/
def renamed (key : SymbolKey) (name : String) (signature : WrittenSignature) : WrittenSignature :=
  if signature.tree.Calls key then
    { signature with name := ⟨{ signature.name.1 with value := name }, signature.name.2⟩ }
  else signature

/-- Renaming what is written and renaming the tree come to the same. -/
theorem withoutPlaces_renamed (signature : WrittenSignature) :
    (signature.renamed key name).tree.withoutPlaces
      = (signature.tree.renamed key name).withoutPlaces := by
  unfold renamed Signature.renamed
  by_cases hcalls : signature.tree.Calls key
  · rw [if_pos hcalls, if_pos hcalls]
    rfl
  · rw [if_neg hcalls, if_neg hcalls]

end WrittenSignature

namespace WrittenCondition

variable {key : SymbolKey} {name : String}

/-- A condition as it is written. -/
def renamed (key : SymbolKey) (name : String) : WrittenCondition → WrittenCondition
  | call negation signature => .call negation (signature.renamed key name)
  | comparison left operator right => .comparison left operator right

/-- For conditions. -/
theorem withoutPlaces_renamed (condition : WrittenCondition) :
    (condition.renamed key name).tree.withoutPlaces
      = (condition.tree.renamed key name).withoutPlaces := by
  cases condition with
  | call negation signature =>
    exact congrArg (fun tree => Condition.mk (.call tree negation.isSome) nowhere)
      signature.withoutPlaces_renamed
  | comparison left operator right => rfl

end WrittenCondition

/-- A condition with the word in front of it. -/
def WrittenConjunct.renamed (key : SymbolKey) (name : String) (conjunct : WrittenConjunct) :
    WrittenConjunct :=
  { conjunct with condition := conjunct.condition.renamed key name }

namespace WrittenAction

variable {key : SymbolKey} {name : String}

/-- An action as it is written. -/
def renamed (key : SymbolKey) (name : String) : WrittenAction → WrittenAction
  | goalCompleted word semicolon => .goalCompleted word semicolon
  | call negation signature semicolon => .call negation (signature.renamed key name) semicolon

/-- For actions. -/
theorem withoutPlaces_renamed (action : WrittenAction) :
    (action.renamed key name).tree.withoutPlaces
      = (action.tree.renamed key name).withoutPlaces := by
  cases action with
  | goalCompleted word semicolon => rfl
  | call negation signature semicolon =>
    exact congrArg (fun tree => Action.mk (.call tree negation.isSome) nowhere)
      signature.withoutPlaces_renamed

/-- A block of actions ends where the next token starts, which plays no part without places. -/
theorem withoutPlaces_block_renamed (actions : List WrittenAction) (next : Token) :
    (block (actions.map (·.renamed key name)) next).withoutPlaces
      = ((block actions next).renamed key name).withoutPlaces := by
  simp only [block, ActionBlock.renamed, ActionBlock.withoutPlaces, List.map_map,
    Function.comp_def, withoutPlaces_renamed]

end WrittenAction

namespace WrittenRule

variable {key : SymbolKey} {name : String}

/-- A rule as it is written, with all its parts. -/
def renamed (key : SymbolKey) (name : String) (rule : WrittenRule) : WrittenRule :=
  { rule with
    head := rule.head.renamed key name
    conditions := rule.conditions.map (·.renamed key name)
    action := rule.action.renamed key name
    actions := rule.actions.map (·.renamed key name) }

/-- For rules. -/
theorem withoutPlaces_renamed (rule : WrittenRule) :
    (rule.renamed key name).tree.withoutPlaces = (rule.tree.renamed key name).withoutPlaces := by
  have hconditions (conjunct : WrittenConjunct) :
      (conjunct.renamed key name).tree.withoutPlaces
        = (conjunct.tree.renamed key name).withoutPlaces := conjunct.condition.withoutPlaces_renamed
  have hactions : (WrittenAction.block ((rule.action :: rule.actions).map (·.renamed key name))
      {}).withoutPlaces = _ := WrittenAction.withoutPlaces_block_renamed ..
  simp only [tree, renamed, Rule.withoutPlaces, Rule.renamed, ConditionBlock.withoutPlaces,
    List.map_map, Function.comp_def, WrittenSignature.withoutPlaces_renamed, hconditions,
    ← hactions, List.map_cons]

end WrittenRule

namespace SilentGoal

variable {key : SymbolKey} {name : String}

/-- A goal as it is written, in its three sections. -/
def renamed (key : SymbolKey) (name : String) (goal : SilentGoal) : SilentGoal :=
  { goal with
    init := goal.init.map (·.renamed key name)
    rules := goal.rules.map (·.renamed key name)
    exit := goal.exit.map (·.renamed key name) }

/-- For goals: this is what takes the argument about tokens back to trees. -/
theorem withoutPlaces_renamed (goal : SilentGoal) :
    (goal.renamed key name).tree.withoutPlaces = (goal.tree.renamed key name).withoutPlaces := by
  simp only [tree, renamed, Goal.withoutPlaces, Goal.renamed, List.map_map, Function.comp_def,
    WrittenRule.withoutPlaces_renamed, WrittenAction.withoutPlaces_block_renamed]

end SilentGoal

/-! ## Tokens

A goal is gone through as it is written, part by part, with what follows it still open. At the name
of a call the new name is patched in or the token is kept; between the parts nothing happens. The
kind of the token in front is carried along, for it decides whether a name behind it may change
without a blank. -/

/-- The new name at the calls of a symbol. -/
def callPatches (key : SymbolKey) (chars : List Char) (calls : List Call) : List Patch :=
  (calls.filter (·.key == key)).map fun call => ⟨call.signature.identifier.range.span, chars⟩

/-- The patches of two lists of calls, one behind the other. -/
theorem callPatches_append (key : SymbolKey) (chars : List Char) (calls more : List Call) :
    callPatches key chars (calls ++ more)
      = callPatches key chars calls ++ callPatches key chars more := by
  simp only [callPatches, List.filter_append, List.map_append]

/-- A list of parts of which some call something, first part first. -/
theorem callPatches_filterMap {α : Type} (key : SymbolKey) (chars : List Char)
    (call? : α → Option Call) (part : α) (parts : List α) :
    callPatches key chars ((part :: parts).filterMap call?)
      = callPatches key chars (call? part).toList
        ++ callPatches key chars (parts.filterMap call?) := by
  rw [← callPatches_append]
  cases hcall : call? part <;> simp [hcall]

/-- There is a patch at a signature that is a call of the symbol. -/
theorem callPatches_at? (key : SymbolKey) (chars : List Char) (signature : Signature) (role : Role)
    (negated : Bool) (rule : Option Range) :
    callPatches key chars (Call.at? signature role negated rule).toList
      = if signature.Calls key then [⟨signature.identifier.range.span, chars⟩] else [] := by
  unfold Signature.Calls callPatches
  by_cases hname : signature.identifier.name = ""
  · simp [Call.at?_of_nameless hname, hname]
  · rw [Call.at?_of_named hname]
    by_cases hkey : (⟨signature.identifier.name, signature.arity⟩ : SymbolKey) = key
    · simp [hname, hkey, Call.key, Call.name, Call.arity]
    · simp [hname, hkey, Call.key, Call.name, Call.arity]

end Syntax

namespace Respells

open Syntax

variable {before : TokenKind} {tokens respelled : List Token} {patches : List Patch}
  {chars name : List Char}

section Names

variable (fits : IsNameText chars name) (key : SymbolKey)
include fits

/-- A signature behind something that does not run on. -/
theorem signature (signature : WrittenSignature) (role : Role) (negated : Bool)
    (rule : Option Range) (ends : before ∉ Lexeme.openKinds)
    (more : Respells .rParen tokens patches respelled) :
    Respells before (signature.tokens ++ tokens)
      (callPatches key chars (Call.at? signature.tree role negated rule).toList ++ patches)
      ((signature.renamed key (String.ofList name)).tokens ++ respelled) := by
  have hinner (kind : TokenKind) : Respells kind
      (signature.parameters.toList.flatMap (·.tokens) ++ signature.closing.1 :: tokens) patches
      (signature.parameters.toList.flatMap (·.tokens) ++ signature.closing.1 :: respelled) :=
    keepAll _ fun _ => .keep (signature.closing.2.symm ▸ more)
  have hname (kind : TokenKind) (ends : kind ∉ Lexeme.openKinds) : Respells kind
      (signature.name.1 :: signature.opening.1
        :: (signature.parameters.toList.flatMap (·.tokens) ++ signature.closing.1 :: tokens))
      (callPatches key chars (Call.at? signature.tree role negated rule).toList ++ patches)
      ((signature.renamed key (String.ofList name)).name.1 :: signature.opening.1
        :: (signature.parameters.toList.flatMap (·.tokens) ++ signature.closing.1 :: respelled)) := by
    rw [callPatches_at?, WrittenSignature.renamed]
    by_cases hcalls : signature.tree.Calls key
    · rw [if_pos hcalls, if_pos hcalls]
      exact .name ends signature.name.2 signature.opening.2 fits (hinner _)
    · rw [if_neg hcalls, if_neg hcalls]
      exact .keep (.keep (hinner _))
  have htokens : (signature.renamed key (String.ofList name)).tokens ++ respelled
      = (signature.owner.toList.flatMap fun owner => [owner.1.1, owner.2.1])
        ++ (signature.renamed key (String.ofList name)).name.1 :: signature.opening.1
          :: (signature.parameters.toList.flatMap (·.tokens) ++ signature.closing.1 :: respelled) := by
    unfold WrittenSignature.renamed
    split <;> simp [WrittenSignature.tokens]
  rw [htokens]
  -- An owner and its dot are kept; the dot is no token that goes on into the name.
  cases howner : signature.owner with
  | none => simpa [WrittenSignature.tokens, howner] using hname before ends
  | some owner =>
    obtain ⟨owner, dot⟩ := owner
    have hdot := hname dot.1.kind (by rw [dot.2]; decide)
    simpa [WrittenSignature.tokens, howner] using Respells.keep (.keep hdot)

/-- A condition is respelled at its name, if it has one. -/
theorem condition (condition : WrittenCondition) (rule : Range) (ends : before ∉ Lexeme.openKinds)
    (more : ∀ kind, Respells kind tokens patches respelled) :
    Respells before (condition.tokens ++ tokens)
      (callPatches key chars (condition.tree.call? rule).toList ++ patches)
      ((condition.renamed key (String.ofList name)).tokens ++ respelled) := by
  -- In a comparison no token is touched.
  cases condition with
  | comparison left operator right => exact keepAll _ more
  | call negation called =>
    have hcall (kind : TokenKind) (ends : kind ∉ Lexeme.openKinds) :=
      signature fits key called .condition negation.isSome (some rule) ends (more .rParen)
    cases negation with
    | none => exact hcall before ends
    | some negation => exact .keep (hcall negation.1.kind (by rw [negation.2]; decide))

/-- The conditions of a rule. -/
theorem conjuncts (conjuncts : List WrittenConjunct) (rule : Range)
    (more : ∀ kind, Respells kind tokens patches respelled) (before : TokenKind) :
    Respells before (conjuncts.flatMap (·.tokens) ++ tokens)
      (callPatches key chars ((conjuncts.map (·.tree)).filterMap (Condition.call? rule)) ++ patches)
      ((conjuncts.map (·.renamed key (String.ofList name))).flatMap (·.tokens) ++ respelled) := by
  -- What follows the first is respelled by hypothesis, behind whatever token it ends with.
  induction conjuncts generalizing before with
  | nil => exact more before
  | cons conjunct conjuncts ih =>
    have hand : conjunct.and.1.kind ∉ Lexeme.openKinds := by rw [conjunct.and.2]; decide
    have hcondition := condition fits key conjunct.condition rule hand ih
    rw [List.map_cons, callPatches_filterMap]
    simpa [WrittenConjunct.tokens, WrittenConjunct.tree, WrittenConjunct.renamed] using
      Respells.keep hcondition

/-- An action is respelled at its name. It ends with a semicolon, behind which any name may stand. -/
theorem action (action : WrittenAction) (role : Role) (rule : Option Range)
    (ends : before ∉ Lexeme.openKinds)
    (more : ∀ kind ∉ Lexeme.openKinds, Respells kind tokens patches respelled) :
    Respells before (action.tokens ++ tokens)
      (callPatches key chars (action.tree.call? role rule).toList ++ patches)
      ((action.renamed key (String.ofList name)).tokens ++ respelled) := by
  cases action with
  | goalCompleted word semicolon =>
    exact .keep (.keep (more _ (by rw [semicolon.2]; decide)))
  | call negation called semicolon =>
    have hsemicolon := more semicolon.1.kind (by rw [semicolon.2]; decide)
    have hcall (kind : TokenKind) (ends : kind ∉ Lexeme.openKinds) :=
      signature fits key called role negation.isSome rule ends (.keep hsemicolon)
    rw [show (WrittenAction.call negation called semicolon).tree.call? role rule
      = Call.at? called.tree role negation.isSome rule from rfl]
    cases negation with
    | none => simpa [WrittenAction.tokens, WrittenAction.renamed] using hcall before ends
    | some negation =>
      have hnot := hcall negation.1.kind (by rw [negation.2]; decide)
      simpa [WrittenAction.tokens, WrittenAction.renamed] using Respells.keep hnot

/-- The actions of a block. -/
theorem actions (actions : List WrittenAction) (role : Role) (rule : Option Range)
    (more : ∀ kind ∉ Lexeme.openKinds, Respells kind tokens patches respelled)
    (before : TokenKind) (ends : before ∉ Lexeme.openKinds) :
    Respells before (actions.flatMap (·.tokens) ++ tokens)
      (callPatches key chars ((actions.map (·.tree)).filterMap (Action.call? role rule)) ++ patches)
      ((actions.map (·.renamed key (String.ofList name))).flatMap (·.tokens) ++ respelled) := by
  induction actions generalizing before with
  | nil => exact more before ends
  | cons action' actions ih =>
    rw [List.map_cons, callPatches_filterMap]
    simpa using action fits key action' role rule ends ih

/-- A rule from its keyword to its last action. -/
theorem rule (rule : WrittenRule)
    (more : ∀ kind ∉ Lexeme.openKinds, Respells kind tokens patches respelled) :
    Respells before (rule.tokens ++ tokens)
      (callPatches key chars rule.tree.calls ++ patches)
      ((rule.renamed key (String.ofList name)).tokens ++ respelled) := by
  have hmark : rule.mark.1.kind ∉ Lexeme.openKinds := by rw [rule.mark.2]; decide
  have hopener : rule.keyword.1.kind ∉ Lexeme.openKinds := by
    rw [rule.keyword.2]
    cases rule.kind <;> decide
  have hactions := actions fits key (rule.action :: rule.actions) .action
    (some rule.tree.range) more _ hmark
  have hconditions := conjuncts fits key rule.conditions rule.tree.range
    fun _ => .keep hactions
  have hhead := signature fits key rule.head (.head rule.kind) false
    (some rule.tree.range) hopener (hconditions .rParen)
  have hcalls : rule.tree.calls
      = (Call.at? rule.head.tree (.head rule.kind) false (some rule.tree.range)).toList
        ++ (rule.conditions.map (·.tree)).filterMap (Condition.call? rule.tree.range)
        ++ ((rule.action :: rule.actions).map (·.tree)).filterMap
          (Action.call? .action (some rule.tree.range)) := rfl
  rw [hcalls, callPatches_append, callPatches_append]
  simpa [WrittenRule.tokens, WrittenRule.renamed] using Respells.keep hhead

/-- The rules of a goal; with `actions` this is all a goal calls from. -/
theorem rules (rules : List WrittenRule) (more : ∀ kind, Respells kind tokens patches respelled)
    (before : TokenKind) :
    Respells before (rules.flatMap (·.tokens) ++ tokens)
      (callPatches key chars ((rules.map (·.tree)).flatMap (·.calls)) ++ patches)
      ((rules.map (·.renamed key (String.ofList name))).flatMap (·.tokens) ++ respelled) := by
  induction rules generalizing before with
  | nil => exact more before
  | cons rule' rules ih =>
    simpa [callPatches_append] using rule fits key rule' fun kind _ => ih kind

/-- **A silent goal with the new name at the calls of a symbol.** -/
theorem goal (goal : SilentGoal) (before : TokenKind) :
    Respells before goal.tokens (callPatches key chars goal.tree.calls)
      (goal.renamed key (String.ofList name)).tokens := by
  have hinit : goal.initSection.1.kind ∉ Lexeme.openKinds := by rw [goal.initSection.2]; decide
  have hexit : goal.exitSection.1.kind ∉ Lexeme.openKinds := by rw [goal.exitSection.2]; decide
  have hend (kind : TokenKind) : Respells kind (goal.endExitSection.1 :: goal.footer.flatMap (·.tokens))
      [] (goal.endExitSection.1 :: goal.footer.flatMap (·.tokens)) := by
    simpa using keepAll (goal.endExitSection.1 :: goal.footer.flatMap (·.tokens)) fun _ => .nil
  have hback := actions fits key goal.exit .exitAction none (fun kind _ => hend kind) _ hexit
  have hrules := rules fits key goal.rules fun _ => .keep hback
  have hfront := actions fits key goal.init .initAction none
    (fun kind _ => .keep (hrules goal.kbSection.1.kind)) _ hinit
  have hcalls : goal.tree.calls
      = (goal.init.map (·.tree)).filterMap (Action.call? .initAction none)
        ++ (goal.rules.map (·.tree)).flatMap (·.calls)
        ++ (goal.exit.map (·.tree)).filterMap (Action.call? .exitAction none) := rfl
  rw [hcalls, callPatches_append, callPatches_append]
  have hall : Respells before _ _ _ :=
    keepAll (goal.header.flatMap (·.tokens)) fun _ => .keep hfront
  simpa [SilentGoal.tokens, SilentGoal.front, SilentGoal.back, SilentGoal.renamed] using hall

end Names

end Respells

/-- The calls of a symbol stand one behind the other. -/
theorem Syntax.ordered_callPatches {text : String} {chars name : List Char} (key : SymbolKey)
    (hsilent : (parseGoal text).diagnostics = []) (fits : IsNameText chars name) :
    (callPatches key chars (parseGoal text).tree.calls).Pairwise
      fun a b => a.span.start ≤ b.span.start ∧ a.span.stop ≤ b.span.start := by
  obtain ⟨goal, htokens, htree, -⟩ := exists_silent hsilent
  have hrespells := Respells.goal fits key goal .endOfFile
  rw [← htokens, ← htree] at hrespells
  exact TokenList.ordered_patches hrespells

/-- **What is read with another name at the calls of a symbol** is the tree with this name there. -/
theorem Syntax.parseGoal_renamed {text : String} {chars name : List Char} (key : SymbolKey)
    (hsilent : (parseGoal text).diagnostics = []) (fits : IsNameText chars name) :
    let patches := callPatches key chars (parseGoal text).tree.calls
    let patched := parseGoal (String.ofList (Patch.applyAll patches text.toList))
    patched.diagnostics = []
      ∧ patched.tree.withoutPlaces
        = ((parseGoal text).tree.renamed key (String.ofList name)).withoutPlaces := by
  obtain ⟨goal, htokens, htree, hlexical⟩ := exists_silent hsilent
  rw [htree, ← goal.withoutPlaces_renamed]
  exact parseGoal_respelled htokens hlexical (.goal fits key goal .endOfFile)

end StoryCheck
