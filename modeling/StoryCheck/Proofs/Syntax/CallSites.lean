import Mathlib.Data.List.Basic
import StoryCheck.Syntax.Calls

/-!
# Call sites without places

What a goal calls and compares, whatever the ranges of its nodes are. A bracket or a semicolon
closes a signature or an action, and so ends every node that ends with it. Trees that differ in these
ends only have the same call sites and the same comparisons.

* **`Goal.map_signature_calls`** — each named signature of a goal is one call, and there is no other.
* **`Goal.callSites`** — names, numbers of parameters, roles and rules of the calls.
* **`Goal.comparisons`** — the comparisons of each rule.
* **`Goal.withoutEnds`** — a tree without the ranges that a bracket or a semicolon ends.
-/

namespace StoryCheck.Syntax

/-! ## Named signatures

A call is made from a signature and what stands around it. Only a signature that lost its name makes
none, so the calls of a goal are its named signatures, in the order of the source. -/

section Named

variable {signature : Signature} {role : Role} {negated : Bool} {rule : Option Range} {call : Call}

/-- A signature makes one call at most, and that call keeps all that it is made from. -/
theorem Call.at?_eq_some_iff : Call.at? signature role negated rule = some call
    ↔ signature.identifier.name ≠ "" ∧ call = ⟨signature, role, negated, rule⟩ := by
  unfold Call.at?
  split
  case isTrue hname => exact iff_of_false nofun fun h => h.1 hname
  case isFalse hname => rw [Option.some.injEq, eq_comm, and_iff_right hname]

/-- A signature with a name makes a call. -/
theorem Call.at?_of_named (hname : signature.identifier.name ≠ "") :
    Call.at? signature role negated rule = some ⟨signature, role, negated, rule⟩ :=
  Call.at?_eq_some_iff.2 ⟨hname, rfl⟩

/-- A signature without one makes none. -/
theorem Call.at?_of_nameless (hname : signature.identifier.name = "") :
    Call.at? signature role negated rule = none :=
  Option.eq_none_iff_forall_ne_some.2 fun _ hcall => (Call.at?_eq_some_iff.1 hcall).1 hname

end Named

/-- Whether the name of a signature is there. -/
def Signature.isNamed (signature : Signature) : Bool := signature.identifier.name ≠ ""

/-- The signature of a condition that is no comparison. -/
def Condition.signature? (condition : Condition) : Option Signature :=
  match condition.form with
  | .call signature _ => some signature
  | .comparison .. => none

/-- The signature of an action that calls something. -/
def Action.signature? (action : Action) : Option Signature :=
  match action.form with
  | .call signature _ => some signature
  | .goalCompleted => none

/-- The signatures of a block of actions. -/
def ActionBlock.signatures (block : ActionBlock) : List Signature :=
  block.actions.filterMap (·.signature?)

/-- The signatures of a rule: head, conditions, actions. -/
def Rule.signatures (rule : Rule) : List Signature :=
  rule.head :: rule.conditions.conditions.filterMap (·.signature?) ++ rule.actions.signatures

/-- The signatures of a goal in the order of the source. -/
def Goal.signatures (goal : Goal) : List Signature :=
  goal.init.signatures ++ goal.rules.flatMap (·.signatures) ++ goal.exit.signatures

theorem Call.map_signature_at? (signature : Signature) (role : Role) (negated : Bool)
    (rule : Option Range) : (Call.at? signature role negated rule).map (·.signature)
      = (some signature).filter (·.isNamed) := by
  by_cases hname : signature.identifier.name = ""
  · simp [Call.at?_of_nameless hname, Option.filter, Signature.isNamed, hname]
  · simp [Call.at?_of_named hname, Option.filter, Signature.isNamed, hname]

theorem Condition.map_signature_call? (rule : Range) (condition : Condition) :
    (condition.call? rule).map (·.signature) = condition.signature?.filter (·.isNamed) := by
  unfold Condition.call? Condition.signature?
  cases condition.form with
  | call signature negated => exact Call.map_signature_at? ..
  | comparison operator left right => rfl

theorem Action.map_signature_call? (role : Role) (rule : Option Range) (action : Action) :
    (action.call? role rule).map (·.signature) = action.signature?.filter (·.isNamed) := by
  unfold Action.call? Action.signature?
  cases action.form with
  | call signature negated => exact Call.map_signature_at? ..
  | goalCompleted => rfl

theorem ActionBlock.map_signature_calls (role : Role) (rule : Option Range) (block : ActionBlock) :
    (block.calls role rule).map (·.signature) = block.signatures.filter (·.isNamed) := by
  rw [calls, signatures, List.map_filterMap, List.filter_filterMap]
  exact List.filterMap_congr fun action _ => action.map_signature_call? role rule

theorem Rule.map_signature_calls (rule : Rule) :
    rule.calls.map (·.signature) = rule.signatures.filter (·.isNamed) := by
  have hhead : rule.headCall?.toList.map (·.signature) = [rule.head].filter (·.isNamed) := by
    rw [← Option.toList_map, headCall?, Call.map_signature_at?]
    cases hname : rule.head.isNamed <;> simp [hname]
  have hconditions : (rule.conditions.conditions.filterMap (Condition.call? rule.range)).map
      (·.signature) = (rule.conditions.conditions.filterMap (·.signature?)).filter (·.isNamed) := by
    rw [List.map_filterMap, List.filter_filterMap]
    exact List.filterMap_congr fun condition _ => condition.map_signature_call? rule.range
  rw [calls, signatures, List.map_append, List.map_append, hhead, hconditions,
    ActionBlock.map_signature_calls, ← List.filter_append, ← List.filter_append]
  rfl

/-- **Each named signature of a goal is one call.** The calls come in the order of the source, and
what has lost its name is the only thing that is left out. -/
theorem Goal.map_signature_calls (goal : Goal) :
    goal.calls.map (·.signature) = goal.signatures.filter (·.isNamed) := by
  rw [calls, signatures, List.map_append, List.map_append, ActionBlock.map_signature_calls,
    ActionBlock.map_signature_calls, List.map_flatMap, List.filter_append, List.filter_append,
    List.filter_flatMap]
  simp only [Rule.map_signature_calls]

/-! ## Calls and comparisons

What counts as the call sites of a goal: every signature with its role, its negation and the number
of its rule. -/

/-- What is called, how, and in the rule of which number, if in one. -/
structure CallSite where
  name : String
  arity : Nat
  role : Role
  negated : Bool
  rule : Option Nat
deriving DecidableEq, Repr

/-- The call site of a call in the rule of a number. -/
def Call.site (rule : Option Nat) (call : Call) : CallSite :=
  { name := call.name, arity := call.arity, role := call.role, negated := call.negated, rule }

/-- The call sites of a goal in the order of the source. -/
def Goal.callSites (goal : Goal) : List CallSite :=
  (goal.init.calls .initAction none).map (Call.site none)
    ++ goal.rules.zipIdx.flatMap (fun (rule, number) => rule.calls.map (Call.site (some number)))
    ++ (goal.exit.calls .exitAction none).map (Call.site none)

/-- There is one for each call. -/
theorem Goal.map_callSites (goal : Goal) :
    goal.callSites.map (fun site => { site with rule := none })
      = goal.calls.map (Call.site none) := by
  have hrules : (goal.rules.zipIdx.flatMap fun (rule, _) => rule.calls.map (Call.site none))
      = goal.rules.flatMap fun rule => rule.calls.map (Call.site none) := by
    rw [← List.flatMap_map Prod.fst fun rule : Rule => rule.calls.map (Call.site none)]
    rw [List.zipIdx_map_fst]
  simp only [callSites, calls, List.map_append, List.map_flatMap, List.map_map]
  exact congrArg₂ _ (congrArg₂ _ rfl hrules) rfl

/-- Whether a condition compares. -/
def Condition.isComparison (condition : Condition) : Bool :=
  match condition.form with
  | .call .. => false
  | .comparison .. => true

/-- The comparisons of each rule of a goal. -/
def Goal.comparisons (goal : Goal) : List (List Condition) :=
  goal.rules.map fun rule => rule.conditions.conditions.filter (·.isComparison)

/-! ## Trees without ends

Where a token is missing, the ranges around it end elsewhere. So trees are compared without the ends
of what the token would have closed. -/

/-- The range in place of one that is left out. -/
def nowhere : Range := .empty 0 0

def Signature.withoutEnds (signature : Signature) : Signature := { signature with range := nowhere }

/-- Neither a bracket nor a semicolon closes a comparison. -/
def Condition.withoutEnds (condition : Condition) : Condition :=
  match condition.form with
  | .call signature negated => ⟨.call signature.withoutEnds negated, nowhere⟩
  | .comparison .. => condition

def Action.withoutEnds (action : Action) : Action :=
  match action.form with
  | .call signature negated => ⟨.call signature.withoutEnds negated, nowhere⟩
  | .goalCompleted => ⟨.goalCompleted, nowhere⟩

def ActionBlock.withoutEnds (block : ActionBlock) : ActionBlock :=
  ⟨block.actions.map (·.withoutEnds), nowhere⟩

def Rule.withoutEnds (rule : Rule) : Rule :=
  { rule with
    head := rule.head.withoutEnds
    conditions := ⟨rule.conditions.conditions.map (·.withoutEnds), nowhere⟩
    actions := rule.actions.withoutEnds
    range := nowhere }

def Goal.withoutEnds (goal : Goal) : Goal :=
  { goal with
    init := goal.init.withoutEnds
    rules := goal.rules.map (·.withoutEnds)
    exit := goal.exit.withoutEnds
    range := nowhere }

section Calls

variable {role : Role} {negated : Bool} {rule other : Option Range} {number : Option Nat}

theorem Call.site_at? (signature : Signature) :
    (Call.at? signature.withoutEnds role negated rule).map (Call.site number)
      = (Call.at? signature role negated other).map (Call.site number) := by
  by_cases hname : signature.identifier.name = ""
  · have hname' : signature.withoutEnds.identifier.name = "" := hname
    rw [Call.at?_of_nameless hname, Call.at?_of_nameless hname']
  · have hname' : signature.withoutEnds.identifier.name ≠ "" := hname
    rw [Call.at?_of_named hname, Call.at?_of_named hname']
    rfl

theorem ActionBlock.sites_withoutEnds (block : ActionBlock) :
    (block.withoutEnds.calls role rule).map (Call.site number)
      = (block.calls role other).map (Call.site number) := by
  simp only [calls, withoutEnds, List.filterMap_map, List.map_filterMap]
  congr 1
  funext ⟨form, _⟩
  cases form with
  | call signature negated => exact Call.site_at? signature
  | goalCompleted => rfl

theorem Rule.sites_withoutEnds (rule : Rule) :
    rule.withoutEnds.calls.map (Call.site number) = rule.calls.map (Call.site number) := by
  have hhead : rule.withoutEnds.headCall?.map (Call.site number)
      = rule.headCall?.map (Call.site number) := Call.site_at? rule.head
  have hconditions (condition : Condition) :
      (condition.withoutEnds.call? nowhere).map (Call.site number)
        = (condition.call? rule.range).map (Call.site number) := by
    obtain ⟨form, _⟩ := condition
    cases form with
    | call signature negated => exact Call.site_at? signature
    | comparison operator left right => rfl
  simp only [calls, List.map_append, ← Option.toList_map, hhead]
  refine congrArg₂ _ (congrArg₂ _ rfl ?_) rule.actions.sites_withoutEnds
  rw [withoutEnds, List.filterMap_map, List.map_filterMap, List.map_filterMap]
  exact congrFun (congrArg _ (funext hconditions)) _

end Calls

/-- The call sites do not depend on ends. -/
theorem Goal.callSites_withoutEnds (goal : Goal) : goal.withoutEnds.callSites = goal.callSites := by
  refine congrArg₂ _ (congrArg₂ _ goal.init.sites_withoutEnds ?_) goal.exit.sites_withoutEnds
  rw [withoutEnds, List.zipIdx_map, List.flatMap_map]
  exact congrFun (congrArg _ (funext fun (rule, _) => rule.sites_withoutEnds)) _

/-- Neither do the comparisons. -/
theorem Goal.comparisons_withoutEnds (goal : Goal) :
    goal.withoutEnds.comparisons = goal.comparisons := by
  have hkinds (condition : Condition) :
      condition.withoutEnds.isComparison = condition.isComparison := by
    obtain ⟨form, _⟩ := condition
    cases form <;> rfl
  have hstays (condition : Condition) (h : condition.isComparison = true) :
      condition.withoutEnds = condition := by
    obtain ⟨form, _⟩ := condition
    cases form with
    | call signature negated => cases h
    | comparison operator left right => rfl
  rw [comparisons, withoutEnds, List.map_map]
  refine List.map_congr_left fun rule _ => ?_
  show List.filter _ (List.map _ _) = _
  rw [List.filter_map, List.map_congr_left (g := id), List.map_id]
  · exact List.filter_congr fun condition _ => hkinds condition
  · intro condition hmem
    exact hstays condition ((hkinds condition).symm.trans (List.mem_filter.1 hmem).2)

end StoryCheck.Syntax
