import StoryCheck.Proofs.Check.Codes
import StoryCheck.Proofs.Check.Scopes
import StoryCheck.Proofs.Syntax.CallSites
import StoryCheck.Proofs.Syntax.Sketch

/-!
# Variables without a value

A rule head gives values to its variables, and so does a condition that is a call without NOT. Every
other mention reads the variable. Only the first mention of each variable is looked at, and that is
enough: if it gives a value, it comes before all that read it, and if it reads, it comes before all that
give a value.

* **`RulePlace`**, **`Precedes`** — the places of a rule in the order of evaluation.
* **`MentionedAt`** — what stands at them.
* **`unboundOf_ruleReports`** — what is reported: the variables that their first mention reads.
* **`unbound_variables_are_found`** — those that are read before they are given a value.
-/

namespace StoryCheck

open Syntax

/-! ## Places

The order in which a rule is evaluated: head, conditions, actions, and in each of them from left to
right. A variable has to be given a value at the first place that mentions it. -/

namespace Syntax

/-- A place of a rule at which a parameter or a side of a comparison may stand. -/
inductive RulePlace where
  | head (slot : Nat)
  | condition (item slot : Nat)
  | action (item slot : Nat)
deriving DecidableEq, Repr

/-- Whether a place comes before another one in the order of evaluation: head, conditions, actions, each
from left to right. -/
def RulePlace.Precedes : RulePlace → RulePlace → Prop
  | head slot, head other => slot < other
  | head _, _ => True
  | condition item slot, condition item' other => item < item' ∨ item = item' ∧ slot < other
  | condition _ _, action _ _ => True
  | action item slot, action item' other => item < item' ∨ item = item' ∧ slot < other
  | _, _ => False

/-- Of two places one at most comes before the other. -/
theorem RulePlace.Precedes.asymm {first second : RulePlace} (h : first.Precedes second) :
    ¬ second.Precedes first := by
  cases first <;> cases second <;> simp_all [Precedes] <;> omega

/-- A parameter of a call with a name or a side of a comparison stands at a place, where a variable may
be given a value. -/
inductive Rule.MentionedAt (rule : Rule) : RulePlace → Parameter → (gives : Bool) → Prop
  | head {slot : Nat} {parameter : Parameter} (hname : rule.head.identifier.name ≠ "")
      (hslot : rule.head.parameters[slot]? = some parameter) :
      MentionedAt rule (.head slot) parameter true
  | condition {item slot : Nat} {condition : Condition} {signature : Signature} {negated : Bool}
      {parameter : Parameter} (hitem : rule.conditions.conditions[item]? = some condition)
      (hform : condition.form = .call signature negated) (hname : signature.identifier.name ≠ "")
      (hslot : signature.parameters[slot]? = some parameter) :
      MentionedAt rule (.condition item slot) parameter (!negated)
  | left {item : Nat} {condition : Condition} {operator : Operator} {left : Parameter}
      {right : Operand} (hitem : rule.conditions.conditions[item]? = some condition)
      (hform : condition.form = .comparison operator left right) :
      MentionedAt rule (.condition item 0) left false
  | right {item : Nat} {condition : Condition} {operator : Operator} {left right : Parameter}
      (hitem : rule.conditions.conditions[item]? = some condition)
      (hform : condition.form = .comparison operator left (.parameter right)) :
      MentionedAt rule (.condition item 1) right false
  | action {item slot : Nat} {action : Action} {signature : Signature} {negated : Bool}
      {parameter : Parameter} (hitem : rule.actions.actions[item]? = some action)
      (hform : action.form = .call signature negated) (hname : signature.identifier.name ≠ "")
      (hslot : signature.parameters[slot]? = some parameter) :
      MentionedAt rule (.action item slot) parameter false

/-- Whether a mention gives a value to its variable. -/
def Mention.gives (m : Mention) : Bool :=
  m.call.any fun call =>
    match call.role with
    | .head _ | .condition => !call.negated
    | _ => false

variable {rule : Rule} {call : Call} {m : Mention} {place : RulePlace}

/-! ## The mentions of a rule

The mentions that a scope is built from are listed here with their places. The list is in the order
of the places, so that the first mention of a variable in the list is the one that precedes all
others. -/

/-- A call mentions each of its parameters, by its position. -/
theorem Call.mem_mentions_iff : m ∈ call.mentions
    ↔ m.call = some call ∧ call.signature.parameters[m.index]? = some m.parameter := by
  obtain ⟨parameter, owner, index⟩ := m
  simp only [Call.mentions, List.mem_map, Prod.exists, List.mem_zipIdx_iff_getElem?, Mention.mk.injEq]
  constructor
  · rintro ⟨_, _, hslot, rfl, rfl, rfl⟩
    exact ⟨rfl, hslot⟩
  · rintro ⟨rfl, hslot⟩
    exact ⟨parameter, index, hslot, rfl, rfl, rfl⟩

/-- It does so in order. -/
theorem Call.pairwise_mentions (call : Call) :
    call.mentions.Pairwise fun a b => a.index < b.index := by
  have hindex : call.mentions.map (·.index) = List.range' 0 call.signature.parameters.length := by
    rw [Call.mentions, List.map_map, ← List.zipIdx_map_snd]
    rfl
  rw [← List.pairwise_map, hindex]
  exact List.pairwise_lt_range'

/-- The mentions of a call, if there is one. -/
def mentionsAt (call? : Option Call) : List Mention := (call?.map Call.mentions).getD []

/-- Mentions in a list of conditions or actions with their places. -/
def placedIn {α : Type} (place : (item slot : Nat) → RulePlace) (mentions : α → List Mention)
    (items : List α) : List (RulePlace × Mention) :=
  items.zipIdx.flatMap fun (a, item) => (mentions a).map fun m => (place item m.index, m)

section Items

variable {α : Type} {at_ : (item slot : Nat) → RulePlace} {mentions : α → List Mention} {items : List α}

/-- What is placed is a mention in one of the items. -/
theorem mem_placedIn_iff : (place, m) ∈ placedIn at_ mentions items
    ↔ ∃ item a, items[item]? = some a ∧ m ∈ mentions a ∧ place = at_ item m.index := by
  simp only [placedIn, List.mem_flatMap, List.mem_map, Prod.exists, List.mem_zipIdx_iff_getElem?,
    Prod.mk.injEq]
  constructor
  · rintro ⟨a, item, hitem, _, hm, rfl, rfl⟩
    exact ⟨item, a, hitem, hm, rfl⟩
  · rintro ⟨item, a, hitem, hm, rfl⟩
    exact ⟨a, item, hitem, m, hm, rfl, rfl⟩

/-- Without their places the mentions are those of the items. -/
theorem map_snd_placedIn : (placedIn at_ mentions items).map (·.2) = items.flatMap mentions := by
  conv_rhs => rw [← List.zipIdx_map_fst 0 items, List.flatMap_map]
  simp [placedIn, List.map_flatMap, Function.comp_def]

/-- If items and slots are in order, so are the places. -/
theorem pairwise_placedIn (at_ : (item slot : Nat) → RulePlace) (items : List α)
    (hmentions : ∀ a, (mentions a).Pairwise fun m n => m.index < n.index)
    (hitem : ∀ item item' slot slot', item < item' → (at_ item slot).Precedes (at_ item' slot'))
    (hslot : ∀ item slot slot', slot < slot' → (at_ item slot).Precedes (at_ item slot')) :
    (placedIn at_ mentions items).Pairwise fun a b => a.1.Precedes b.1 := by
  have hitems : items.zipIdx.Pairwise fun a b => a.2 < b.2 := by
    rw [← List.pairwise_map, List.zipIdx_map_snd]
    exact List.pairwise_lt_range'
  refine List.pairwise_flatMap.2 ⟨?_, hitems.imp ?_⟩
  · rintro ⟨a, item⟩ -
    exact List.pairwise_map.2 ((hmentions a).imp fun hlt => hslot item _ _ hlt)
  · rintro ⟨a, item⟩ ⟨b, item'⟩ hlt x hx y hy
    obtain ⟨m, -, rfl⟩ := List.mem_map.1 hx
    obtain ⟨n, -, rfl⟩ := List.mem_map.1 hy
    exact hitem item item' _ _ hlt

end Items

/-- The mentions of a rule with their places. -/
def Rule.placed (rule : Rule) : List (RulePlace × Mention) :=
  (mentionsAt rule.headCall?).map (fun m => (.head m.index, m))
    ++ placedIn .condition (Condition.mentions rule.range) rule.conditions.conditions
    ++ placedIn .action (fun action => mentionsAt (action.call? .action rule.range))
      rule.actions.actions

/-- A block of actions mentions what its calls do. -/
theorem flatMap_calls (role : Role) (range : Option Range) (block : ActionBlock) :
    (block.calls role range).flatMap Call.mentions
      = block.actions.flatMap fun action => mentionsAt (action.call? role range) := by
  rw [ActionBlock.calls]
  induction block.actions with
  | nil => rfl
  | cons action rest ih =>
    rw [List.flatMap_cons, ← ih, List.filterMap_cons]
    cases action.call? role range <;> rfl

/-- They are all the mentions of the rule. -/
theorem Rule.map_snd_placed (rule : Rule) : rule.placed.map (·.2) = rule.mentions := by
  rw [placed, List.map_append, List.map_append, map_snd_placedIn, map_snd_placedIn, ← flatMap_calls,
    List.map_map]
  exact congrArg (· ++ _ ++ _) (List.map_id _)

/-- The mentions of one call are in order. -/
theorem pairwise_mentionsAt (call? : Option Call) :
    (mentionsAt call?).Pairwise fun m n => m.index < n.index := by
  cases call? with
  | none => exact .nil
  | some call => exact call.pairwise_mentions

/-- The mentions of a condition are in order; it may be a comparison of two. -/
theorem Condition.pairwise_mentions (range : Range) (condition : Condition) :
    (condition.mentions range).Pairwise fun m n => m.index < n.index := by
  unfold Condition.mentions
  split
  · exact pairwise_mentionsAt _
  · split <;> simp

/-- They stand in the order of evaluation. -/
theorem Rule.pairwise_placed (rule : Rule) : rule.placed.Pairwise fun a b => a.1.Precedes b.1 := by
  have hhead : ((mentionsAt rule.headCall?).map fun m => (RulePlace.head m.index, m)).Pairwise
      fun a b => a.1.Precedes b.1 := List.pairwise_map.2 (pairwise_mentionsAt _)
  have hconditions := pairwise_placedIn .condition rule.conditions.conditions
    (Condition.pairwise_mentions rule.range) (fun _ _ _ _ => .inl) (fun _ _ _ hlt => .inr ⟨rfl, hlt⟩)
  have hactions := pairwise_placedIn .action rule.actions.actions
    (fun action => pairwise_mentionsAt (action.call? .action rule.range)) (fun _ _ _ _ => .inl)
    (fun _ _ _ hlt => .inr ⟨rfl, hlt⟩)
  refine List.pairwise_append.2 ⟨List.pairwise_append.2 ⟨hhead, hconditions, ?_⟩, hactions, ?_⟩
  · rintro a ha ⟨place, m⟩ hb
    obtain ⟨first, -, rfl⟩ := List.mem_map.1 ha
    obtain ⟨item, condition, -, -, rfl⟩ := mem_placedIn_iff.1 hb
    trivial
  · rintro ⟨first, n⟩ ha ⟨second, m⟩ hb
    obtain ⟨item, action, -, -, rfl⟩ := mem_placedIn_iff.1 hb
    rcases List.mem_append.1 ha with ha | ha
    · obtain ⟨_, -, heq⟩ := List.mem_map.1 ha
      obtain ⟨rfl, -⟩ := Prod.mk.inj heq
      trivial
    · obtain ⟨item, condition, -, -, rfl⟩ := mem_placedIn_iff.1 ha
      trivial

/-- A signature with a name mentions its parameters. -/
theorem mem_mentionsAt_iff {signature : Signature} {role : Role} {negated : Bool}
    {range : Option Range} : m ∈ mentionsAt (Call.at? signature role negated range)
      ↔ signature.identifier.name ≠ "" ∧ m.call = some ⟨signature, role, negated, range⟩
        ∧ signature.parameters[m.index]? = some m.parameter := by
  unfold mentionsAt
  by_cases hname : signature.identifier.name = ""
  · rw [Call.at?_of_nameless hname]
    exact iff_of_false List.not_mem_nil fun h => h.1 hname
  · rw [Call.at?_of_named hname]
    exact Call.mem_mentions_iff.trans (and_iff_right hname).symm

/-- **What stands at a place is mentioned there.** -/
theorem Rule.mentionedAt_iff {parameter : Parameter} {gives : Bool} :
    rule.MentionedAt place parameter gives
      ↔ ∃ m, (place, m) ∈ rule.placed ∧ m.parameter = parameter ∧ m.gives = gives := by
  simp only [placed, List.mem_append, List.mem_map, mem_placedIn_iff]
  constructor
  · intro h
    -- One case for each kind of place.
    cases h with
    | @head slot _ hname hslot =>
      have hm : ⟨parameter, some ⟨rule.head, .head rule.kind, false, rule.range⟩, slot⟩
          ∈ mentionsAt rule.headCall? := mem_mentionsAt_iff.2 ⟨hname, rfl, hslot⟩
      exact ⟨_, .inl (.inl ⟨_, hm, rfl⟩), rfl, rfl⟩
    | @condition item slot condition signature negated _ hitem hform hname hslot =>
      refine ⟨⟨parameter, some ⟨signature, .condition, negated, rule.range⟩, slot⟩,
        .inl (.inr ⟨item, condition, hitem, ?_, rfl⟩), rfl, rfl⟩
      rw [Condition.mentions, hform]
      show _ ∈ mentionsAt (condition.call? rule.range)
      rw [Condition.call?, hform]
      exact mem_mentionsAt_iff.2 ⟨hname, rfl, hslot⟩
    | @left item condition _ _ _ hitem hform =>
      refine ⟨⟨parameter, none, 0⟩, .inl (.inr ⟨item, condition, hitem, ?_, rfl⟩), rfl, rfl⟩
      rw [Condition.mentions, hform]
      exact List.mem_cons_self
    | @right item condition _ _ _ hitem hform =>
      refine ⟨⟨parameter, none, 1⟩, .inl (.inr ⟨item, condition, hitem, ?_, rfl⟩), rfl, rfl⟩
      rw [Condition.mentions, hform]
      exact List.mem_cons_of_mem _ List.mem_cons_self
    | @action item slot action signature negated _ hitem hform hname hslot =>
      refine ⟨⟨parameter, some ⟨signature, .action, negated, rule.range⟩, slot⟩,
        .inr ⟨item, action, hitem, ?_, rfl⟩, rfl, rfl⟩
      rw [Action.call?, hform]
      exact mem_mentionsAt_iff.2 ⟨hname, rfl, hslot⟩
  · rintro ⟨m, (⟨n, hm, heq⟩ | ⟨item, condition, hitem, hm, rfl⟩) | ⟨item, action, hitem, hm, rfl⟩, rfl, rfl⟩
    · obtain ⟨rfl, rfl⟩ := Prod.mk.inj heq
      obtain ⟨hname, hcall, hslot⟩ := mem_mentionsAt_iff.1 hm
      rw [Mention.gives, hcall]
      exact .head hname hslot
    · unfold Condition.mentions at hm
      split at hm
      case h_1 signature negated hform =>
        rw [Condition.call?, hform] at hm
        obtain ⟨hname, hcall, hslot⟩ := mem_mentionsAt_iff.1 hm
        rw [Mention.gives, hcall]
        exact .condition hitem hform hname hslot
      case h_2 operator left right hform =>
        rcases List.mem_cons.1 hm with rfl | hm
        · exact .left hitem hform
        · split at hm
          · obtain rfl := List.mem_singleton.1 hm
            exact .right hitem hform
          · cases hm
    · unfold Action.call? at hm
      split at hm
      case h_1 signature negated hform =>
        obtain ⟨hname, hcall, hslot⟩ := mem_mentionsAt_iff.1 hm
        rw [Mention.gives, hcall]
        exact .action hitem hform hname hslot
      case h_2 => cases hm

variable {name : String}

/-- The first mention of a variable reads it exactly if some mention reads it before all that give it a
value. -/
theorem Rule.exists_first_read_iff :
    (∃ m, rule.mentions.find? (fun m => m.parameter.variable? == some name) = some m ∧ m.gives = false)
      ↔ ∃ place parameter, rule.MentionedAt place parameter false ∧ parameter.variable? = some name
        ∧ ∀ other giver, rule.MentionedAt other giver true → giver.variable? = some name →
          place.Precedes other := by
  -- The places of all mentions are at hand in a list in the order of evaluation.
  have hordered := rule.pairwise_placed
  rw [← rule.map_snd_placed, List.find?_map]
  constructor
  · rintro ⟨m, hfind, hreads⟩
    obtain ⟨⟨place, m⟩, hfound, rfl⟩ := Option.map_eq_some_iff.1 hfind
    obtain ⟨hname, front, back, hsplit, hfront⟩ := List.find?_eq_some_iff_append.1 hfound
    refine ⟨place, m.parameter, mentionedAt_iff.2 ⟨m, List.mem_of_find?_eq_some hfound, rfl, hreads⟩,
      by simpa using hname, fun other giver hgiver hsame => ?_⟩
    obtain ⟨n, hn, rfl, hgives⟩ := mentionedAt_iff.1 hgiver
    rw [hsplit] at hn hordered
    rcases List.mem_append.1 hn with hn | hn
    · have hother := hfront _ hn
      simp [hsame] at hother
    · rcases List.mem_cons.1 hn with heq | hn
      · obtain ⟨rfl, rfl⟩ := Prod.mk.inj heq
        rw [hreads] at hgives
        cases hgives
      · exact (List.pairwise_cons.1 (List.pairwise_append.1 hordered).2.1).1 _ hn
  · rintro ⟨place, parameter, hreader, hname, hbefore⟩
    obtain ⟨m, hm, rfl, hreads⟩ := mentionedAt_iff.1 hreader
    cases hfound : rule.placed.find? ((fun m : Mention => m.parameter.variable? == some name) ∘ (·.2)) with
    | none =>
      have hother := List.find?_eq_none.1 hfound _ hm
      simp [hname] at hother
    | some found =>
      obtain ⟨first, n⟩ := found
      refine ⟨n, rfl, Bool.eq_false_iff.2 fun hgives => ?_⟩
      obtain ⟨hfirst, front, back, hsplit, hfront⟩ := List.find?_eq_some_iff_append.1 hfound
      have hplace : place.Precedes first :=
        hbefore first n.parameter (mentionedAt_iff.2 ⟨n, List.mem_of_find?_eq_some hfound, rfl, hgives⟩)
          (by simpa using hfirst)
      rw [hsplit] at hm hordered
      rcases List.mem_append.1 hm with hm | hm
      · have hother := hfront _ hm
        simp [hname] at hother
      · rcases List.mem_cons.1 hm with heq | hm
        · obtain ⟨rfl, rfl⟩ := Prod.mk.inj heq
          rw [hreads] at hgives
          cases hgives
        · exact hplace.asymm ((List.pairwise_cons.1 (List.pairwise_append.1 hordered).2.1).1 _ hm)

end Syntax

/-! ## Reports

A report of an unbound variable comes from the directions of the parameters in a rule. No other
check of a rule makes one, so all others can be left out. -/

/-- A variable is bound by a mention that gives it a value. -/
theorem Variable.isBound_ofMention (types : TypeRegistry) (name : String) (m : Mention) :
    (Variable.ofMention types name m).isBound = m.gives := by
  obtain ⟨parameter, call, index⟩ := m
  cases call <;> rfl

namespace Check

variable {context : CheckContext} {types : TypeRegistry} {rule : Rule} {scope : RuleScope}
  {p : ScopedParameter} {name : String} {ds : List Diagnostic}

/-- The reports on variables without a value. -/
def unboundOf (ds : List Diagnostic) : List Diagnostic := ds.filter (·.code == .unboundVariable)

/-- The reports of two lists. -/
theorem unboundOf_append (ds more : List Diagnostic) :
    unboundOf (ds ++ more) = unboundOf ds ++ unboundOf more := List.filter_append ds more

/-- Reports about values are none of them. -/
theorem unboundOf_of_areOf (h : AreOf valueCodes ds) : unboundOf ds = [] := by
  refine List.filter_eq_nil_iff.2 fun d hd hcode => ?_
  have hvalue := h d hd
  rw [beq_iff_eq.1 hcode] at hvalue
  revert hvalue
  decide

/-- The report on a variable that its first mention reads. -/
def variableReports (v : Variable) : List Diagnostic :=
  if v.isBound then [] else [.unboundVariable v.name v.binder.span]

/-- A variable is looked at where it is bound. -/
theorem unboundOf_flowReports (hbuilt : scope.IsBuilt types) (hp : p ∈ scope.parameters) :
    unboundOf (flowReports context scope p) = (p.binder? types).toList.flatMap variableReports := by
  unfold flowReports ScopedParameter.binder?
  cases huse : p.use with
  -- The variable of a binding is the one that the scope has under its name.
  | binding name =>
    have hv : Variable.ofMention types name p.mention ∈ scope.vars := by
      rw [hbuilt.vars]
      exact List.mem_filterMap.2 ⟨p, hp, by simp [ScopedParameter.binder?, huse]⟩
    have hlookup : scope.lookup? name = some (.ofMention types name p.mention) :=
      hbuilt.lookup?_eq_some_iff.2 ⟨hv, rfl⟩
    dsimp only
    rw [hlookup, Option.any_some]
    cases hbound : (Variable.ofMention types name p.mention).isBound with
    | true => simp [variableReports, hbound, unboundOf_of_areOf areOf_inputReports]
    | false =>
      have hreport : variableReports (.ofMention types name p.mention)
          = [.unboundVariable name p.mention.parameter.argument.range.span] := by
        rw [variableReports, hbound]
        rfl
      rw [Option.toList_some, List.flatMap_singleton, hreport]
      rfl
  | placeholder =>
    dsimp only
    split <;> rfl
  | constant type => rfl
  | reference name => rfl
  | other => rfl

/-- Of the reports about a mention, those about its direction are left. -/
theorem unboundOf_mentionReports {before : Option ScopedParameter} :
    unboundOf (mentionReports context scope before p) = unboundOf (flowReports context scope p) := by
  rw [mentionReports, unboundOf_append, unboundOf_append, unboundOf_of_areOf areOf_writtenTypeReports,
    List.nil_append]
  refine List.append_right_eq_self.2 ?_
  split
  · exact unboundOf_of_areOf areOf_valueReports
  · split
    · rfl
    · exact unboundOf_of_areOf areOf_comparisonReports

/-- **In a rule those variables are reported that their first mention reads,** each there and once. -/
theorem unboundOf_ruleReports (context : CheckContext) (rule : Rule) :
    unboundOf (ruleReports context rule)
      = (RuleScope.ofRule context.types rule).vars.flatMap variableReports := by
  have hbuilt := RuleScope.isBuilt_ofRule context.types rule
  unfold ruleReports
  generalize RuleScope.ofRule context.types rule = scope at hbuilt
  have hlength : scope.parameters.length ≤ (none :: scope.parameters.map some).length := by simp
  have hmention : ∀ pair ∈ (none :: scope.parameters.map some).zip scope.parameters,
      unboundOf (mentionReports context scope pair.1 pair.2)
        = (pair.2.binder? context.types).toList.flatMap variableReports := by
    rintro ⟨before, p⟩ hpair
    rw [unboundOf_mentionReports, unboundOf_flowReports hbuilt (List.of_mem_zip hpair).2]
  calc unboundOf (((none :: scope.parameters.map some).zip scope.parameters).flatMap
        fun pair => mentionReports context scope pair.1 pair.2)
    _ = ((none :: scope.parameters.map some).zip scope.parameters).flatMap
        fun pair => (pair.2.binder? context.types).toList.flatMap variableReports :=
      (List.filter_flatMap ..).trans (List.flatMap_congr hmention)
    _ = scope.parameters.flatMap fun p => (p.binder? context.types).toList.flatMap variableReports := by
      conv_rhs => rw [← List.map_snd_zip hlength, List.flatMap_map]
    _ = scope.vars.flatMap variableReports := by
      rw [hbuilt.vars, List.filterMap_eq_flatMap_toList, List.flatMap_assoc]

/-- Such a report names its variable. -/
theorem unboundVariable_injective {other : String} {span span' : Span}
    (h : Diagnostic.unboundVariable name span = .unboundVariable other span') : name = other := by
  have hmessage : s!"Variable '{name}' is not bound here" = s!"Variable '{other}' is not bound here" :=
    congrArg Diagnostic.message h
  have hname : toString name = toString other := by simpa using hmessage
  exact hname

/-- A variable of a rule is reported exactly if its first mention reads it. -/
theorem exists_unboundVariable_iff :
    (∃ span, Diagnostic.unboundVariable name span ∈ ruleReports context rule)
      ↔ ∃ m, rule.mentions.find? (fun m => m.parameter.variable? == some name) = some m
        ∧ m.gives = false := by
  -- Checks of the calls report no unbound variables, so that only those of the variables count.
  have hreported (span : Span) : Diagnostic.unboundVariable name span ∈ ruleReports context rule
      ↔ Diagnostic.unboundVariable name span
        ∈ (RuleScope.ofRule context.types rule).vars.flatMap variableReports := by
    rw [← unboundOf_ruleReports, unboundOf, List.mem_filter]
    exact (and_iff_left rfl).symm
  have hbuilt := RuleScope.isBuilt_ofRule context.types rule
  have hlookup := RuleScope.lookup?_ofRule context.types rule name
  simp only [hreported, List.mem_flatMap]
  constructor
  · rintro ⟨span, v, hv, hspan⟩
    unfold variableReports at hspan
    split at hspan
    case isTrue => cases hspan
    case isFalse hunbound =>
      have hname := unboundVariable_injective (List.mem_singleton.1 hspan)
      rw [hbuilt.lookup?_eq_some_iff.2 ⟨hv, hname.symm⟩] at hlookup
      obtain ⟨m, hm, rfl⟩ := Option.map_eq_some_iff.1 hlookup.symm
      exact ⟨m, hm, by simpa [Variable.isBound_ofMention] using hunbound⟩
  · rintro ⟨m, hm, hreads⟩
    rw [hm] at hlookup
    refine ⟨m.parameter.argument.range.span, _, (hbuilt.lookup?_eq_some_iff.1 hlookup).1, ?_⟩
    rw [variableReports, Variable.isBound_ofMention, hreads]
    exact List.mem_singleton_self _

/-- A variable in an action of a section is reported. -/
theorem unboundVariable_mem_sectionReports {call : Call} {index : Nat} {parameter : Parameter}
    (hname : parameter.variable? = some name) :
    Diagnostic.unboundVariable name parameter.argument.range.span
      ∈ sectionReports context call index parameter := by
  unfold Parameter.variable? at hname
  split at hname
  case h_1 written hterm =>
    split at hname
    case isTrue hclass =>
      obtain rfl := Option.some.inj hname
      rw [sectionReports, hterm]
      dsimp only
      rw [hclass]
      exact List.mem_append_right _ List.mem_cons_self
    case isFalse => cases hname
  case h_2 => cases hname

/-- **A variable of a rule is reported exactly if some mention reads it before all that give it a
value;** and so is every variable in an action of a section. -/
theorem unbound_variables_are_found (context : CheckContext) :
    (∀ rule ∈ context.goal.tree.rules, ∀ name,
      (∃ span, Diagnostic.unboundVariable name span ∈ ruleReports context rule)
        ↔ ∃ place parameter, rule.MentionedAt place parameter false ∧ parameter.variable? = some name
          ∧ ∀ other giver, rule.MentionedAt other giver true → giver.variable? = some name →
            place.Precedes other)
    ∧ (∀ rule ∈ context.goal.tree.rules, ruleReports context rule ⊆ argumentReports context)
    ∧ ∀ block ∈ [context.goal.tree.init, context.goal.tree.exit], ∀ action ∈ block.actions,
      ∀ signature negated, action.form = .call signature negated → signature.identifier.name ≠ "" →
        ∀ parameter ∈ signature.parameters, ∀ name, parameter.variable? = some name →
          Diagnostic.unboundVariable name parameter.argument.range.span ∈ argumentReports context := by
  refine ⟨fun rule _ name => exists_unboundVariable_iff.trans Rule.exists_first_read_iff,
    fun rule hrule d hd => List.mem_append_left _ (List.mem_flatMap.2 ⟨rule, hrule, hd⟩), ?_⟩
  intro block hblock action haction signature negated hform hname parameter hparameter name hvariable
  have hcall (role : Role) : ⟨signature, role, negated, none⟩ ∈ block.calls role none := by
    refine List.mem_filterMap.2 ⟨action, haction, ?_⟩
    rw [Action.call?, hform]
    exact Call.at?_of_named hname
  obtain ⟨index, hindex⟩ := List.mem_iff_getElem?.1 hparameter
  have hreport (role : Role) : Diagnostic.unboundVariable name parameter.argument.range.span
      ∈ sectionActionReports context ⟨signature, role, negated, none⟩ :=
    List.mem_flatMap.2 ⟨(parameter, index), List.mem_zipIdx_iff_getElem?.2 hindex,
      unboundVariable_mem_sectionReports hvariable⟩
  refine List.mem_append_right _ (List.mem_flatMap.2 ?_)
  rcases List.mem_cons.1 hblock with rfl | hblock
  · exact ⟨_, List.mem_append_left _ (hcall .initAction), hreport .initAction⟩
  · obtain rfl := List.mem_singleton.1 hblock
    exact ⟨_, List.mem_append_right _ (hcall .exitAction), hreport .exitAction⟩

-- Of the names in an action only the variable without a value is reported: neither the variable of
-- the head, nor the placeholder, a database or a plain name.
example : unboundOf (ruleReports default
    (Sketch.rule (Sketch.call 0 "DB_A" [.name "_x"]) []
      [Sketch.call 9 "Pay" [.name "_x", .name "_y", .name "_", .name "DB_A", .name "Anna"]]))
    = [.unboundVariable "_y" ⟨9, 9⟩] := by
  decide

end Check

end StoryCheck
