import Mathlib.Tactic.Common
import StoryCheck.Symbol.Table

/-!
# Call sites of a goal

A call site says as much about its symbol as the symbol has parameters, and it takes types only from
symbols that the same goal calls. Both come from how the scope of a rule is put together: it goes
through the parameters of the calls in order, and a variable stands for a parameter of one of them.

* **`map_mention_ofRule`** — a scope keeps every mention of the rule, in order.
* **`shareOut_of_mentions`** — sharing out gives each call what it mentions.
* **`length_parameters_ofGoal`**, **`exists_call_of_reference`** — the two facts about whole goals.
-/

namespace StoryCheck

open Syntax

/-! ## Mentions and calls

The mentions of a rule are the parameters of its calls and the sides of its comparisons, in the
order of evaluation. Leaving out the second sort gives the calls. -/

namespace Syntax

variable {rule : Rule} {call : Call}

theorem Call.filter_mentions (call : Call) :
    (call.mentions.filter fun m => m.call.isSome) = call.mentions := by
  refine List.filter_eq_self.2 fun m hm => ?_
  obtain ⟨⟨parameter, index⟩, -, rfl⟩ := List.mem_map.1 hm
  rfl

theorem Condition.filter_mentions (range : Range) (condition : Condition) :
    ((condition.mentions range).filter fun m => m.call.isSome)
      = (condition.call? range).toList.flatMap Call.mentions := by
  unfold Condition.mentions
  cases hform : condition.form with
  | call signature negated =>
    cases hcall : condition.call? range with
    | none => simp
    | some call => simp [call.filter_mentions]
  | comparison operator left right =>
    have hcall : condition.call? range = none := by simp [Condition.call?, hform]
    cases right <;> simp [hcall]

/-- The mentions of a rule that belong to calls are the parameters of its calls. -/
theorem Rule.filter_mentions (rule : Rule) :
    (rule.mentions.filter fun m => m.call.isSome) = rule.calls.flatMap Call.mentions := by
  unfold Rule.mentions Rule.calls
  have hhead : (((rule.headCall?.map Call.mentions).getD []).filter fun m => m.call.isSome)
      = rule.headCall?.toList.flatMap Call.mentions := by
    cases rule.headCall? with
    | none => rfl
    | some call => simp [call.filter_mentions]
  have hconditions :
      ((rule.conditions.conditions.flatMap (Condition.mentions rule.range)).filter
        fun m => m.call.isSome)
      = (rule.conditions.conditions.filterMap (Condition.call? rule.range)).flatMap
          Call.mentions := by
    induction rule.conditions.conditions with
    | nil => rfl
    | cons condition rest ih =>
      rw [List.flatMap_cons, List.filter_append, ih, condition.filter_mentions]
      cases hcall : condition.call? rule.range <;> simp [hcall]
  have hactions (calls : List Call) :
      ((calls.flatMap Call.mentions).filter fun m => m.call.isSome)
        = calls.flatMap Call.mentions := by
    induction calls with
    | nil => rfl
    | cons call rest ih => rw [List.flatMap_cons, List.filter_append, ih, call.filter_mentions]
  -- Head, conditions and actions in turn, as the mentions of a rule are gathered.
  rw [List.filter_append, List.filter_append, hhead, hconditions, hactions, List.flatMap_append,
    List.flatMap_append]

/-- A mention that belongs to a call is one of the mentions of that call. -/
theorem Rule.mem_mentions_of_call {m : Mention} (hm : m ∈ rule.mentions)
    (hcall : m.call = some call) : call ∈ rule.calls ∧ m ∈ call.mentions := by
  have hm' : m ∈ rule.mentions.filter fun m => m.call.isSome :=
    List.mem_filter.2 ⟨hm, by simp [hcall]⟩
  rw [rule.filter_mentions] at hm'
  obtain ⟨other, hother, hm'⟩ := List.mem_flatMap.1 hm'
  have hown := hm'
  obtain ⟨⟨parameter, index⟩, -, rfl⟩ := List.mem_map.1 hm'
  cases hcall
  exact ⟨hother, hown⟩

/-- The mentions of a call are counted like its parameters. -/
theorem Call.index_lt_of_mem_mentions {m : Mention} (hm : m ∈ call.mentions) :
    m.index < call.arity := by
  obtain ⟨⟨parameter, index⟩, hmem, rfl⟩ := List.mem_map.1 hm
  exact (List.mem_zipIdx' hmem).1

end Syntax

/-! ## Scopes

A variable stands for the mention that brought it into the scope. If that one is a parameter of a
call, then this is where its type is taken from. -/

namespace RuleScope

variable {types : TypeRegistry} {rule : Rule}

theorem map_mention_extend (scope : RuleScope) (mention : Mention) :
    (extend types scope mention).parameters.map (·.mention)
      = scope.parameters.map (·.mention) ++ [mention] := by
  simp [extend]

/-- A scope keeps every mention of the rule, in order. -/
theorem map_mention_ofRule (types : TypeRegistry) (rule : Rule) :
    (ofRule types rule).parameters.map (·.mention) = rule.mentions := by
  have hfold : ∀ (mentions : List Mention) (scope : RuleScope),
      (mentions.foldl (extend types) scope).parameters.map (·.mention)
        = scope.parameters.map (·.mention) ++ mentions := by
    intro mentions
    induction mentions with
    | nil => simp
    | cons mention rest ih =>
      intro scope
      rw [List.foldl_cons, ih, map_mention_extend, List.append_assoc]
      rfl
  exact hfold rule.mentions {}

/-- A new variable stands for the mention that brought it. -/
theorem mem_vars_extend {scope : RuleScope} {mention : Mention} {v : Variable}
    (hv : v ∈ (extend types scope mention).vars) :
    v ∈ scope.vars ∨ (v.call = mention.call ∧ v.index = mention.index) := by
  unfold extend at hv
  rcases List.mem_append.1 hv with hv | hv
  · exact Or.inl hv
  · refine Or.inr ?_
    split at hv
    · split at hv
      · split at hv
        · cases hv
        · rw [List.mem_singleton.1 hv]
          exact ⟨rfl, rfl⟩
      · cases hv
      · cases hv
    · split at hv <;> cases hv

/-- A variable of a rule stands for a mention in it. -/
theorem exists_mention_of_vars {v : Variable} (hv : v ∈ (ofRule types rule).vars) :
    ∃ m ∈ rule.mentions, v.call = m.call ∧ v.index = m.index := by
  have hfold : ∀ (mentions : List Mention) (scope : RuleScope),
      v ∈ (mentions.foldl (extend types) scope).vars →
      v ∈ scope.vars ∨ ∃ m ∈ mentions, v.call = m.call ∧ v.index = m.index := by
    intro mentions
    induction mentions with
    | nil => exact fun _ => Or.inl
    | cons mention rest ih =>
      intro scope hv
      rcases ih _ hv with hv | ⟨m, hm, heq⟩
      · exact (mem_vars_extend hv).imp id fun heq => ⟨mention, List.mem_cons_self, heq⟩
      · exact Or.inr ⟨m, List.mem_cons_of_mem _ hm, heq⟩
  exact (hfold rule.mentions {} hv).resolve_left nofun

/-- A variable stands for a parameter of a call of its rule, if it stands for one of any. -/
theorem exists_call_of_source {v : Variable} {ref : ParameterRef}
    (hv : v ∈ (ofRule types rule).vars) (hsource : v.source? = some ref) :
    ∃ call ∈ rule.calls, ref.symbol = call.key ∧ ref.index < call.arity := by
  obtain ⟨call, hcall, rfl⟩ := Option.map_eq_some_iff.1 hsource
  obtain ⟨m, hm, hcall_eq, hindex⟩ := exists_mention_of_vars hv
  obtain ⟨hmem, hown⟩ := Rule.mem_mentions_of_call hm (hcall_eq.symm.trans hcall)
  refine ⟨call, hmem, rfl, ?_⟩
  show v.index < call.arity
  rw [hindex]
  exact Call.index_lt_of_mem_mentions hown

/-- A parameter takes its type from a parameter of a symbol that the rule calls. -/
theorem exists_call_of_scopedSource {parameter : ScopedParameter} {ref : ParameterRef}
    (href : (scopedSource (ofRule types rule) parameter).source = .reference ref) :
    ∃ call ∈ rule.calls, ref.symbol = call.key ∧ ref.index < call.arity := by
  have hlookup {name : String} {v : Variable}
      (hv : (ofRule types rule).lookup? name = some v) (hsource : v.source? = some ref) :
      ∃ call ∈ rule.calls, ref.symbol = call.key ∧ ref.index < call.arity :=
    exists_call_of_source (List.mem_of_find?_eq_some hv) hsource
  -- Only a reference whose variable has no written type takes its type from elsewhere.
  obtain ⟨mention, use, written⟩ := parameter
  cases written with
  | some type => cases href
  | none =>
    cases use with
    | reference name =>
      simp only [scopedSource] at href
      cases hv : (ofRule types rule).lookup? name with
      | none => simp [hv] at href
      | some v =>
        simp only [hv] at href
        cases hwritten : v.written with
        | some type => simp [hwritten] at href
        | none =>
          cases hsource : v.source? with
          | none => simp [hwritten, hsource] at href
          | some other =>
            simp only [hwritten, hsource, ParameterSource.reference.injEq] at href
            exact hlookup hv (href ▸ hsource)
    | constant type => cases href
    | binding name => cases href
    | placeholder => cases href
    | other => cases href

end RuleScope

/-! ## Sites

The scope of a rule lists the parameters of all calls in one row. They are shared out again to the
calls that they belong to. -/

namespace CallSite

variable {types : TypeRegistry} {goal : Goal} {site : CallSite}

theorem length_mentions (call : Call) : call.mentions.length = call.arity := by
  simp [Call.mentions, Call.arity, Signature.arity]

/-- Sharing out the mentions of calls gives each call as many as it has parameters. -/
theorem shareOut_of_mentions {calls : List Call} {parameters : List ScopedParameter}
    (h : parameters.map (·.mention) = calls.flatMap Call.mentions) :
    (shareOut calls parameters).map (·.1) = calls
      ∧ ∀ share ∈ shareOut calls parameters, share.2.length = share.1.arity := by
  induction calls generalizing parameters with
  | nil => exact ⟨rfl, nofun⟩
  | cons call rest ih =>
    rw [List.flatMap_cons] at h
    have hlength := congrArg List.length h
    rw [List.length_map, List.length_append, length_mentions] at hlength
    have hrest : (parameters.drop call.arity).map (·.mention) = rest.flatMap Call.mentions := by
      rw [List.map_drop, h, ← length_mentions call, List.drop_left]
    obtain ⟨hcalls, hshares⟩ := ih hrest
    refine ⟨congrArg (call :: ·) hcalls, fun share hshare => ?_⟩
    rcases List.mem_cons.1 hshare with rfl | hshare
    · show (parameters.take call.arity).length = call.arity
      rw [List.length_take]
      omega
    · exact hshares share hshare

theorem shareOut_ofRule (types : TypeRegistry) (rule : Rule) :
    let shares := shareOut rule.calls
      ((RuleScope.ofRule types rule).parameters.filter fun p => p.mention.call.isSome)
    shares.map (·.1) = rule.calls ∧ ∀ share ∈ shares, share.2.length = share.1.arity := by
  refine shareOut_of_mentions ?_
  rw [← rule.filter_mentions, ← RuleScope.map_mention_ofRule types rule, List.filter_map]
  rfl

theorem map_call_ofRule (types : TypeRegistry) (rule : Rule) :
    (ofRule types rule).map (·.call) = rule.calls := by
  rw [ofRule, List.map_map]
  exact (shareOut_ofRule types rule).1

theorem map_call_ofSection (types : TypeRegistry) (calls : List Call) :
    (ofSection types calls).map (·.call) = calls := by
  simp [ofSection, Function.comp_def]

/-- The call sites of a goal are its calls. -/
theorem map_call_ofGoal (types : TypeRegistry) (goal : Goal) :
    (ofGoal types goal).map (·.call) = goal.calls := by
  have hrules (rules : List Rule) :
      (rules.flatMap (ofRule types)).map (·.call) = rules.flatMap Rule.calls := by
    induction rules with
    | nil => rfl
    | cons rule rest ih =>
      rw [List.flatMap_cons, List.map_append, ih, map_call_ofRule, List.flatMap_cons]
  unfold ofGoal Goal.calls
  rw [List.map_append, List.map_append, map_call_ofSection, map_call_ofSection, hrules]

theorem map_key_ofGoal (types : TypeRegistry) (goal : Goal) :
    (ofGoal types goal).map (·.key) = goal.calls.map Call.key := by
  rw [← map_call_ofGoal types goal, List.map_map]
  rfl

theorem length_parameters_ofSection {calls : List Call} (hsite : site ∈ ofSection types calls) :
    site.parameters.length = site.call.arity := by
  obtain ⟨call, -, rfl⟩ := List.mem_map.1 hsite
  simp [Call.arity, Signature.arity]

/-- A call site says something about every parameter of its symbol. -/
theorem length_parameters_ofGoal (hsite : site ∈ ofGoal types goal) :
    site.parameters.length = site.key.arity := by
  unfold ofGoal at hsite
  rcases List.mem_append.1 hsite with hsite | hsite
  · rcases List.mem_append.1 hsite with hsite | hsite
    · exact length_parameters_ofSection hsite
    · obtain ⟨rule, -, hsite⟩ := List.mem_flatMap.1 hsite
      obtain ⟨share, hshare, rfl⟩ := List.mem_map.1 hsite
      rw [List.length_map]
      exact (shareOut_ofRule types rule).2 share hshare
  · exact length_parameters_ofSection hsite

theorem source_ne_reference_ofSection {calls : List Call} {p : DefinitionParameter}
    {ref : ParameterRef} (hsite : site ∈ ofSection types calls) (hp : p ∈ site.parameters) :
    p.source ≠ .reference ref := by
  obtain ⟨call, -, rfl⟩ := List.mem_map.1 hsite
  obtain ⟨⟨parameter, index⟩, -, rfl⟩ := List.mem_map.1 hp
  unfold constantSource
  dsimp only
  split
  · nofun
  · split <;> nofun

/-- A call site takes types only from parameters of symbols that its goal calls. -/
theorem exists_call_of_reference {p : DefinitionParameter} {ref : ParameterRef}
    (hsite : site ∈ ofGoal types goal) (hp : p ∈ site.parameters)
    (href : p.source = .reference ref) :
    ∃ call ∈ goal.calls, ref.symbol = call.key ∧ ref.index < call.arity := by
  unfold ofGoal at hsite
  rcases List.mem_append.1 hsite with hsite | hsite
  · rcases List.mem_append.1 hsite with hsite | hsite
    · exact absurd href (source_ne_reference_ofSection hsite hp)
    · obtain ⟨rule, hrule, hsite⟩ := List.mem_flatMap.1 hsite
      obtain ⟨share, -, rfl⟩ := List.mem_map.1 hsite
      obtain ⟨parameter, -, rfl⟩ := List.mem_map.1 hp
      obtain ⟨call, hcall, href⟩ := RuleScope.exists_call_of_scopedSource href
      refine ⟨call, ?_, href⟩
      unfold Goal.calls
      exact List.mem_append_left _ (List.mem_append_right _ (List.mem_flatMap.2 ⟨rule, hrule, hcall⟩))
  · exact absurd href (source_ne_reference_ofSection hsite hp)

theorem reference_mem_calls {p : DefinitionParameter} {ref : ParameterRef}
    (hsite : site ∈ ofGoal types goal) (hp : p ∈ site.parameters)
    (href : p.source = .reference ref) : ref.symbol ∈ goal.calls.map Call.key := by
  obtain ⟨call, hcall, hkey, -⟩ := exists_call_of_reference hsite hp href
  exact List.mem_map.2 ⟨call, hcall, hkey.symm⟩

end CallSite

end StoryCheck
