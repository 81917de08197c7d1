import StoryCheck.Proofs.Syntax.CallSites
import StoryCheck.Proofs.Syntax.TreePlaces

/-!
# Where call sites stand

A signature that has a name covers at least the name, and the parts of a tree stand one behind the
other. So the call sites of a goal stand apart, and each is told by its place.

* **`Parse.Ensures`** — what holds of all that a step gives at places in a text.
* **`Range.Spread`** — ranges that stand apart within a range, and how those of the parts of a node
  are put together.
* **`eq_of_span_eq`** — call sites of a goal at the same place are the same.
-/

namespace StoryCheck

/-! ## Ranges within a range

Ranges that have at least one character and stand one behind the other have different places. The
ranges of the parts of a node are of that sort, part by part. -/

namespace Range

/-- Some ranges within a range. Each covers something, and they stand one behind the other. -/
structure Spread (outer : Range) (ranges : List Range) : Prop where
  nonempty : ∀ range ∈ ranges, range.IsNonempty
  within : ∀ range ∈ ranges, range.Within outer
  order : ranges.Pairwise fun a b => a.span.stop ≤ b.span.start

variable {outer range : Range} {ranges : List Range}

/-- No ranges are spread anywhere. -/
theorem Spread.nil : outer.Spread [] := ⟨nofun, nofun, .nil⟩

/-- A range that has a character is spread over itself. -/
theorem Spread.one (hrange : range.IsNonempty) : range.Spread [range] :=
  ⟨by simpa using hrange, by simp [Within], List.pairwise_singleton _ _⟩

/-- What a range covers covers something. -/
theorem Spread.isNonempty (h : outer.Spread ranges) (hmem : range ∈ ranges) : outer.IsNonempty := by
  have hwithin := h.within range hmem
  have hnonempty := h.nonempty range hmem
  unfold Within at hwithin
  unfold IsNonempty at hnonempty ⊢
  omega

/-- Ranges that stand apart start at places of their own. -/
theorem Spread.nodup_spans (h : outer.Spread ranges) : (ranges.map (·.span)).Nodup := by
  refine List.pairwise_map.2 (h.order.imp_of_mem fun {a b} ha _ hle heq => ?_)
  have hnonempty := h.nonempty a ha
  unfold IsNonempty at hnonempty
  rw [heq] at hnonempty hle
  omega

end Range

namespace Syntax

namespace Node.IsPlaced

variable {text : String} {kind : NodeKind} {range : Range} {node child : Node}

/-- A part of a node that stands in a text stands there, too. -/
theorem part (h : node.IsPlaced text) (hmem : child ∈ node.children) : child.IsPlaced text := by
  obtain ⟨-, -, -, parts⟩ := h
  exact parts child hmem

/-- Ranges within the parts of a node stand apart within the node. -/
theorem spread (parts : List (Node × List Range))
    (h : (Node.mk kind range (parts.map (·.1))).IsPlaced text)
    (hparts : ∀ part ∈ parts, part.1.range.Spread part.2) :
    range.Spread (parts.flatMap (·.2)) := by
  obtain ⟨-, order, within, -⟩ := h
  refine ⟨fun inner hinner => ?_, fun inner hinner => ?_, ?_⟩
  · obtain ⟨part, hpart, hinner⟩ := List.mem_flatMap.1 hinner
    exact (hparts part hpart).nonempty inner hinner
  · obtain ⟨part, hpart, hinner⟩ := List.mem_flatMap.1 hinner
    have hspread := hparts part hpart
    have hpartIn := within part.1 (List.mem_map_of_mem hpart) (hspread.isNonempty hinner)
    have hinnerIn := hspread.within inner hinner
    unfold Range.Within at hpartIn hinnerIn ⊢
    omega
  · refine List.pairwise_flatMap.2 ⟨fun part hpart => (hparts part hpart).order, ?_⟩
    rw [List.map_map, List.pairwise_map] at order
    refine order.imp_of_mem fun {a b} ha hb hprecedes x hx y hy => ?_
    -- Parts that have something in them cover something, so one of them ends before the other.
    have hle := hprecedes.2 ((hparts a ha).isNonempty hx) ((hparts b hb).isNonempty hy)
    have hxIn := (hparts a ha).within x hx
    have hyIn := (hparts b hb).within y hy
    unfold Range.Within at hxIn hyIn
    dsimp only [Function.comp] at hle
    omega

/-- The ranges of a node with one part. -/
theorem spread_one {ranges : List Range} (h : (Node.mk kind range [child]).IsPlaced text)
    (hchild : child.range.Spread ranges) : range.Spread ranges := by
  simpa using spread [(child, ranges)] h (by simpa using hchild)

/-- The ranges of a node with a list of parts. -/
theorem spread_map {α : Type} {items : List α} {toNode : α → Node} (places : α → List Range)
    (h : (Node.mk kind range (items.map toNode)).IsPlaced text)
    (hitems : ∀ item ∈ items, (toNode item).IsPlaced text →
      (toNode item).range.Spread (places item)) :
    range.Spread (items.flatMap places) := by
  let parts := items.map fun item => (toNode item, places item)
  have hplaced : (Node.mk kind range (parts.map (·.1))).IsPlaced text := by
    simpa [parts, Function.comp_def] using h
  have hspread := hplaced.spread parts fun part hpart => by
    obtain ⟨item, hitem, rfl⟩ := List.mem_map.1 hpart
    -- Parts are one behind the other, and so is what lies in them.
    exact hitems item hitem (h.part (List.mem_map_of_mem hitem))
  simpa [parts, List.flatMap_map] using hspread

end Node.IsPlaced

/-! ## Signatures with a name

The parser gives a signature the range of the tokens it took, and it takes the name first. That a
range holds a name is shown for every rule of the grammar that gives signatures. -/

/-- The place of a signature, if it has a name. -/
def Signature.places (signature : Signature) : List Range :=
  if signature.identifier.name = "" then [] else [signature.range]

/-- A signature covers something if it has a name. -/
def Signature.CoversName (signature : Signature) : Prop :=
  signature.identifier.name ≠ "" → signature.range.IsNonempty

/-- The place of a signature with a name is a range with a character. -/
theorem Signature.CoversName.spread {signature : Signature} (h : signature.CoversName) :
    signature.range.Spread signature.places := by
  unfold places
  split
  · exact .nil
  next hname => exact .one (h hname)

/-- The signature of a condition, if it is a call, covers its name. -/
def Condition.CoversName (condition : Condition) : Prop :=
  match condition.form with
  | .call signature _ => signature.CoversName
  | .comparison .. => True

/-- The signature of an action, if it is a call, covers its name. -/
def Action.CoversName (action : Action) : Prop :=
  match action.form with
  | .call signature _ => signature.CoversName
  | .goalCompleted => True

/-- The signatures of actions cover their names. -/
def ActionBlock.CoverNames (block : ActionBlock) : Prop := ∀ action ∈ block.actions, action.CoversName

/-- The signatures of a rule cover their names. -/
structure Rule.CoverNames (rule : Rule) : Prop where
  head : rule.head.CoversName
  conditions : ∀ condition ∈ rule.conditions.conditions, condition.CoversName
  actions : rule.actions.CoverNames

/-- The signatures of a goal cover their names. -/
structure Goal.CoverNames (goal : Goal) : Prop where
  init : goal.init.CoverNames
  rules : ∀ rule ∈ goal.rules, rule.CoverNames
  exit : goal.exit.CoverNames

namespace Parse

open Cursor

variable {α β : Type} {p q : Parse α} {f : α → Parse β} {text : String} {good : α → Prop}
  {better : β → Prop} {stops stop : KindSet}

/-- What holds of all that a step gives at places in a text. -/
def Ensures (text : String) (p : Parse α) (good : α → Prop) : Prop :=
  ∀ s : Cursor, s.IsIn text → good (p s).1

namespace Ensures

/-- A value that is good. -/
theorem pure {a : α} (h : good a) : Ensures text (Pure.pure a) good := fun _ _ => h

/-- A first step that is good and one that makes use of it. -/
theorem bind (hp : Advances p) (hgood : Ensures text p good)
    (hf : ∀ a, good a → Ensures text (f a) better) : Ensures text (p >>= f) better :=
  fun s hs => hf _ (hgood s hs) _ ((hp s).lays.isIn hs)

/-- A first step of which nothing needs to be known. -/
theorem skip (hp : Advances p) (hf : ∀ a, Ensures text (f a) better) :
    Ensures text (p >>= f) better :=
  fun s hs => hf _ _ ((hp s).lays.isIn hs)

/-- Whichever of two steps is taken. -/
theorem ite {c : Prop} [Decidable c] (hp : Ensures text p good) (hq : Ensures text q good) :
    Ensures text (if c then p else q) good := by
  split
  · exact hp
  · exact hq

/-- Something is built of what was read and of its range. -/
theorem build {k : α × Range → Parse β} (good : α → Prop) (build : α → Range → β)
    (hp : Ensures text p good) (hk : ∀ a range, k (a, range) = Pure.pure (build a range))
    (hbuild : ∀ a range, good a → better (build a range)) : Ensures text (ranged p >>= k) better := by
  intro s hs
  rw [bind_apply, ranged_apply, hk]
  exact hbuild _ _ (hp s hs)

/-- All that a loop gives is good if what its step gives is. -/
theorem many {step : Parse (Option (List α))} (hstep : Advances step)
    (hgood : Ensures text step fun found => ∀ a ∈ found.getD [], good a) :
    Ensures text (many step) fun found => ∀ a ∈ found, good a := by
  intro s hs a hmem
  obtain ⟨t, ht, hfound⟩ := exists_of_mem_many hstep hs hmem
  exact hgood t ht a hfound

/-- A step of a run that gives one thing. -/
theorem gives {a : α} (h : good a) :
    Ensures text (Pure.pure (some [a])) fun found => ∀ a ∈ found.getD [], good a :=
  pure (by simpa using h)

/-- A step at which a run ends. -/
theorem declines : Ensures text (Pure.pure none) fun found => ∀ a ∈ found.getD [], good a := pure nofun

/-- What was passed over gives nothing. -/
theorem passOver {expected : String} :
    Ensures text (do
      reportUnexpected expected
      discard take
      skipUntil stops stop
      return some []) fun found : Option (List α) => ∀ a ∈ found.getD [], good a :=
  .skip (advances_reportUnexpected _) fun _ => .skip advances_take.discard fun _ =>
    .skip advances_skipUntil fun _ => .pure nofun

end Ensures

/-- A signature has a name only if there is one to take. -/
theorem ensures_signature : Ensures text (signature stops) Signature.CoversName := by
  intro s hs hname
  by_cases hat : s.kindAt 0 = .identifier
  · have hsignature : Advances (signature stops) := advances_signature
    exact (hsignature s).isNonempty_rangeTo hs (shortens_signature hat)
  · refine absurd ?_ hname
    simp only [signature, bind_apply, ranged_apply, expect, eat_of_ne hat]
    rfl

/-- A comparison calls nothing. -/
theorem ensures_comparison :
    Ensures text (comparison stops) fun form => Condition.CoversName ⟨form, default⟩ := by
  refine .skip advances_parameter fun left => .skip (advances_kindAt 0) fun kind => ?_
  cases Operator.ofKind? kind with
  | some operator =>
    exact .skip advances_take.discard fun _ => .skip advances_parameter fun _ => .pure trivial
  | none =>
    have hskip : Ensures text (do
        skipUntil stops []
        return Condition.Form.comparison .equal left (.missing (← missingRange)))
        fun form => Condition.CoversName ⟨form, default⟩ :=
      .skip advances_skipUntil fun _ => .skip advances_missingRange fun _ => .pure trivial
    exact .skip advances_isReportedHere fun _ =>
      .ite (.skip (advances_reportUnexpected _) fun _ => hskip) hskip

/-- A condition covers the name of its signature. -/
theorem ensures_condition : Ensures text (condition stops) Condition.CoversName := by
  refine .build (fun form => Condition.CoversName ⟨form, default⟩)
    (fun form range => ⟨form, range⟩) ?_ (fun _ _ => rfl) fun _ _ h => h
  refine .skip advances_eat fun _ => .ite
    (.bind advances_signature ensures_signature fun _ h => .pure h) ?_
  refine .skip advances_isAt fun _ => .skip (advances_kindAt 1) fun _ => .ite
    (.bind advances_signature ensures_signature fun _ h => .pure h) ?_
  exact fun s hs => ensures_comparison s hs

/-- The conditions of a rule cover their names. -/
theorem ensures_conditionBlock : Ensures text (conditionBlock stops)
    fun block => ∀ condition ∈ block.conditions, condition.CoversName := by
  refine .build (fun conditions => ∀ condition ∈ conditions, condition.CoversName)
    (fun conditions range => ⟨conditions, range⟩) (.many ?_ ?_) (fun _ _ => rfl) fun _ _ h => h
  · exact .bind advances_eat fun _ => .ite (.bind advances_condition fun _ => .pure) .pure
  · exact .skip advances_eat fun _ => .ite
      (.bind advances_condition ensures_condition fun _ h => .gives h) .declines

/-- An action covers the name of its signature. -/
theorem ensures_action : Ensures text (action stops stop) Action.CoversName := by
  refine .build (fun form => Action.CoversName ⟨form, default⟩) (fun form range => ⟨form, range⟩)
    ?_ (fun _ _ => rfl) fun _ _ h => h
  refine .skip advances_eat fun _ => .ite
    (.skip advances_expect.discard fun _ => .pure trivial) (.skip advances_eat fun _ => ?_)
  refine .bind advances_signature ensures_signature fun signature h => .skip advances_expect fun _ => ?_
  refine .ite (.skip advances_isAtAny fun _ => .ite ?_ (.pure h)) (.pure h)
  exact .skip advances_skipUntil fun _ => .skip advances_eat.discard fun _ => .pure h

/-- The actions of a block cover their names. -/
theorem ensures_actionBlock : Ensures text (actionBlock stops stop) ActionBlock.CoverNames := by
  refine .build (fun actions => ∀ action ∈ actions, action.CoversName)
    (fun actions range => ⟨actions, range⟩) (.many ?_ ?_) (fun _ _ => rfl) fun _ _ h => h
  · refine .bind advances_isAtAny fun _ => .bind advances_isAtStop fun _ => .ite .pure ?_
    exact .bind advances_isAtAny fun _ => .ite (.bind advances_action fun _ => .pure)
      advances_passOver
  · refine .skip advances_isAtAny fun _ => .skip advances_isAtStop fun _ => .ite .declines ?_
    exact .skip advances_isAtAny fun _ => .ite
      (.bind advances_action ensures_action fun _ h => .gives h) .passOver

/-- That there are no actions is reported, which gives nothing. -/
theorem ensures_nonemptyBlock {message : String} {result : ActionBlock → β}
    (hresult : ∀ block, block.CoverNames → better (result block)) :
    Ensures text (do
      let actions ← actionBlock stops stop
      if actions.actions.isEmpty then
        report (.warning .emptyActionBlock message actions.range.span)
      return result actions) better :=
  .bind advances_actionBlock ensures_actionBlock fun block h => fun s hs => by
    split <;> exact hresult block h

/-- The body of a rule covers the names in it, whatever range the rule is given. -/
theorem ensures_ruleBody (keyword : Token) :
    Ensures text (ruleBody stops keyword) fun build => ∀ range, (build range).CoverNames := by
  refine .bind advances_signature ensures_signature fun head hhead => ?_
  refine .bind advances_conditionBlock ensures_conditionBlock fun conditions hconditions => ?_
  refine .skip advances_expect fun _ => .ite (.skip advances_isAt fun _ => ?_) ?_
  · refine .skip (advances_kindAt 1) fun _ => .ite ?_
      (ensures_nonemptyBlock fun block h range => ⟨hhead, hconditions, h⟩)
    exact .skip advances_skipUntil fun _ => .skip advances_eat.discard fun _ =>
      ensures_nonemptyBlock fun block h range => ⟨hhead, hconditions, h⟩
  · exact ensures_nonemptyBlock fun block h range => ⟨hhead, hconditions, h⟩

/-- A rule covers its names. -/
theorem ensures_rule : Ensures text (rule stops) Rule.CoverNames :=
  .build (fun build => ∀ range, (build range).CoverNames) (fun build range => build range)
    (.skip advances_take ensures_ruleBody) (fun _ _ => rfl) fun _ range h => h range

/-- The rules of a goal cover their names. -/
theorem ensures_rules : Ensures text (rules stops) fun rules => ∀ rule ∈ rules, rule.CoverNames := by
  refine .many ?_ ?_
  · refine .bind advances_isAtStop fun _ => .ite .pure ?_
    exact .bind advances_isAtAny fun _ => .ite (.bind advances_rule fun _ => .pure) advances_passOver
  · refine .skip advances_isAtStop fun _ => .ite .declines ?_
    exact .skip advances_isAtAny fun _ => .ite
      (.bind advances_rule ensures_rule fun _ h => .gives h) .passOver

/-- A goal covers its names. -/
theorem ensures_goal : Ensures text goal Goal.CoverNames := by
  refine .build (fun build => ∀ range, (build range).CoverNames) (fun build range => build range)
    ?_ (fun _ _ => rfl) fun _ range h => h range
  refine .skip advances_headerOptions fun _ => .skip advances_expect.discard fun _ => ?_
  refine .bind advances_actionBlock ensures_actionBlock fun init hinit => ?_
  refine .skip advances_expect.discard fun _ => .bind advances_rules ensures_rules fun rules hrules => ?_
  refine .skip advances_expect.discard fun _ => ?_
  refine .bind advances_actionBlock ensures_actionBlock fun exit hexit => ?_
  refine .skip advances_expect.discard fun _ => .skip advances_footerOptions fun _ => ?_
  exact .pure fun range => ⟨hinit, hrules, hexit⟩

end Parse

/-- This holds of whatever is read from a text. -/
theorem coverNames_goal (text : String) : (parseGoal text).tree.CoverNames := by
  have hgoal : Parse.Ensures text goal Goal.CoverNames := Parse.ensures_goal
  have hcover := hgoal _ (Cursor.isIn_ofText text)
  rw [parseGoal, parseGoalTokens]
  generalize goal = step at *
  exact hcover

/-! ## Places of call sites

The places of the calls of a goal, read off the tree in one go with the calls. Signatures without a
name have no call and no place. -/

/-- Where a condition calls something. -/
def Condition.places (condition : Condition) : List Range :=
  match condition.form with
  | .call signature _ => signature.places
  | .comparison .. => []

/-- Where an action calls something. -/
def Action.places (action : Action) : List Range :=
  match action.form with
  | .call signature _ => signature.places
  | .goalCompleted => []

/-- Where actions call something. -/
def ActionBlock.places (block : ActionBlock) : List Range := block.actions.flatMap Action.places

/-- Where a rule calls something. -/
def Rule.places (rule : Rule) : List Range :=
  rule.head.places ++ rule.conditions.conditions.flatMap Condition.places ++ rule.actions.places

/-- Where a goal calls something. -/
def Goal.places (goal : Goal) : List Range :=
  goal.init.places ++ goal.rules.flatMap Rule.places ++ goal.exit.places

/-- The place of the call that is made from a signature. -/
theorem Call.map_range_at? (signature : Signature) (role : Role) (negated : Bool)
    (rule : Option Range) :
    (Call.at? signature role negated rule).toList.map (·.signature.range) = signature.places := by
  unfold Signature.places
  split
  next hname => rw [Call.at?_of_nameless hname]; rfl
  next hname => rw [Call.at?_of_named hname]; rfl

/-- The places of calls in a condition. -/
theorem Condition.map_range_call? (rule : Range) (condition : Condition) :
    (condition.call? rule).toList.map (·.signature.range) = condition.places := by
  unfold Condition.call? Condition.places
  cases condition.form with
  | call signature negated => exact Call.map_range_at? ..
  | comparison operator left right => rfl

/-- The places of calls in an action. -/
theorem Action.map_range_call? (role : Role) (rule : Option Range) (action : Action) :
    (action.call? role rule).toList.map (·.signature.range) = action.places := by
  unfold Action.call? Action.places
  cases action.form with
  | call signature negated => exact Call.map_range_at? ..
  | goalCompleted => rfl

/-- The places of calls in a block of actions. -/
theorem ActionBlock.map_range_calls (role : Role) (rule : Option Range) (block : ActionBlock) :
    (block.calls role rule).map (·.signature.range) = block.places := by
  rw [calls, places, List.filterMap_eq_flatMap_toList, List.map_flatMap]
  simp only [Action.map_range_call?]

/-- The places of calls in a rule. -/
theorem Rule.map_range_calls (rule : Rule) :
    rule.calls.map (·.signature.range) = rule.places := by
  rw [calls, places, List.map_append, List.map_append, ActionBlock.map_range_calls, headCall?,
    Call.map_range_at?, List.filterMap_eq_flatMap_toList, List.map_flatMap]
  simp only [Condition.map_range_call?]

/-- The places of calls in a goal. -/
theorem Goal.map_range_calls (goal : Goal) :
    goal.calls.map (·.signature.range) = goal.places := by
  rw [calls, places, List.map_append, List.map_append, ActionBlock.map_range_calls,
    ActionBlock.map_range_calls, List.map_flatMap]
  simp only [Rule.map_range_calls]

/-! ## Call sites stand apart

A signature is not empty, and what is written one behind the other is in places one behind the
other. So no two calls of a goal have the same place. -/

section Apart

variable {text : String}

/-- The place in a condition is within it. -/
theorem Condition.spread_places {condition : Condition} (h : condition.toNode.IsPlaced text)
    (hcovers : condition.CoversName) : condition.toNode.range.Spread condition.places := by
  obtain ⟨form, range⟩ := condition
  -- Only a call has a place.
  cases form with
  | call signature negated => exact h.spread_one (Signature.CoversName.spread hcovers)
  | comparison operator left right => exact .nil

/-- The same for an action. -/
theorem Action.spread_places {action : Action} (h : action.toNode.IsPlaced text)
    (hcovers : action.CoversName) : action.toNode.range.Spread action.places := by
  obtain ⟨form, range⟩ := action
  cases form with
  | call signature negated => exact h.spread_one (Signature.CoversName.spread hcovers)
  | goalCompleted => exact .nil

/-- The places in a block stand apart, action by action. -/
theorem ActionBlock.spread_places {block : ActionBlock} (h : block.toNode.IsPlaced text)
    (hcovers : block.CoverNames) : block.range.Spread block.places :=
  h.spread_map Action.places fun action hmem haction =>
    Action.spread_places haction (hcovers action hmem)

/-- Head, conditions and actions of a rule stand one behind the other. -/
theorem Rule.spread_places {rule : Rule} (h : rule.toNode.IsPlaced text)
    (hcovers : rule.CoverNames) : rule.range.Spread rule.places := by
  have hspread := h.spread [(rule.head.toNode, rule.head.places),
    (rule.conditions.toNode, rule.conditions.conditions.flatMap Condition.places),
    (rule.actions.toNode, rule.actions.places)] ?_
  · simpa [places] using hspread
  · have hconditions : rule.conditions.toNode.IsPlaced text := h.part (by simp [toNode, Node.children])
    have hactions : rule.actions.toNode.IsPlaced text := h.part (by simp [toNode, Node.children])
    simp only [List.forall_mem_cons, List.not_mem_nil, false_implies, implies_true, and_true]
    refine ⟨hcovers.head.spread, ?_, ActionBlock.spread_places hactions hcovers.actions⟩
    exact hconditions.spread_map Condition.places fun condition hmem hcondition =>
      Condition.spread_places hcondition (hcovers.conditions condition hmem)

/-- So do the sections of a goal and the rules. -/
theorem Goal.spread_places {goal : Goal} (h : goal.toNode.IsPlaced text)
    (hcovers : goal.CoverNames) : goal.range.Spread goal.places := by
  let parts := (goal.init.toNode, goal.init.places)
    :: goal.rules.map (fun rule => (rule.toNode, rule.places)) ++ [(goal.exit.toNode, goal.exit.places)]
  have hplaced : (Node.mk .storyGoal goal.range (parts.map (·.1))).IsPlaced text := by
    simpa [parts, Function.comp_def, Goal.toNode] using h
  have hspread := hplaced.spread parts fun part hpart => by
    have hpartPlaced := hplaced.part (List.mem_map_of_mem hpart)
    rcases List.mem_append.1 hpart with hpart | hpart
    · rcases List.mem_cons.1 hpart with rfl | hpart
      · exact ActionBlock.spread_places hpartPlaced hcovers.init
      · obtain ⟨rule, hrule, rfl⟩ := List.mem_map.1 hpart
        exact Rule.spread_places hpartPlaced (hcovers.rules rule hrule)
    · obtain rfl := List.mem_singleton.1 hpart
      exact ActionBlock.spread_places hpartPlaced hcovers.exit
  simpa [parts, places, List.flatMap_map] using hspread

/-- **Call sites of a goal that stand at the same place are the same.** -/
theorem eq_of_span_eq {call other : Call} (hcall : call ∈ (parseGoal text).tree.calls)
    (hother : other ∈ (parseGoal text).tree.calls)
    (hspan : call.signature.range.span = other.signature.range.span) : call = other := by
  have hspread := Goal.spread_places (isPlaced_goal text) (coverNames_goal text)
  have hnodup := hspread.nodup_spans
  rw [← Goal.map_range_calls, List.map_map] at hnodup
  exact List.inj_on_of_nodup_map hnodup hcall hother hspan

end Apart

end Syntax
end StoryCheck
