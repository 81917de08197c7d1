import StoryCheck.Check.Argument
import StoryCheck.Proofs.Check.Scopes

/-!
# Reports on rules, mention by mention

The check of a rule goes over its mentions with the scope of the whole rule at hand. Yet it asks the
scope about those variables only that stand in the mention, and they are in the scope by then, so what
comes behind a mention does not change the reports on it.

* **`reportsBehind`** — the reports on mentions behind a scope.
* **`ruleReports_eq`** — they are those on a rule.
* **`reportsBehind_append`**, **`reportsBehind_congr`** — what comes in front matters by its variables.
-/

namespace StoryCheck

open Syntax

namespace RuleScope

variable {types : TypeRegistry} {scope later : RuleScope} {p : ScopedParameter}

/-! ## Later scopes

A scope only grows while a rule is gone through: a variable that is there stays as it is, whatever
is mentioned behind it. -/

/-- A scope keeps its variables in a later one. -/
def KeptIn (scope later : RuleScope) : Prop :=
  ∀ name v, scope.lookup? name = some v → later.lookup? name = some v

/-- The variable that stands in a mention is in the scope. -/
def Knows (scope : RuleScope) (p : ScopedParameter) : Prop :=
  ∀ name, p.use = .binding name ∨ p.use = .reference name → (scope.lookup? name).isSome

theorem keptIn_foldl_extend (types : TypeRegistry) (scope : RuleScope) (mentions : List Mention) :
    scope.KeptIn (mentions.foldl (extend types) scope) := by
  intro name v hv
  rw [lookup?_foldl_extend, hv, Option.some_or]

theorem KeptIn.lookup?_eq (h : scope.KeptIn later) {name : String}
    (hname : (scope.lookup? name).isSome) : later.lookup? name = scope.lookup? name := by
  obtain ⟨v, hv⟩ := Option.isSome_iff_exists.1 hname
  rw [hv, h name v hv]

theorem Knows.mono (hkept : scope.KeptIn later) (h : scope.Knows p) : later.Knows p := by
  intro name huse
  rw [hkept.lookup?_eq (h name huse)]
  exact h name huse

/-- A mention is known once it is taken in. -/
theorem knows_entry (types : TypeRegistry) (scope : RuleScope) (m : Mention) :
    (extend types scope m).Knows (scope.entry types m) := by
  -- Only a variable binds or is a reference; the other arguments have a type or none.
  have hvariable {name : String} (huse : scope.useOf m.parameter = .binding name
      ∨ scope.useOf m.parameter = .reference name) : m.parameter.variable? = some name := by
    unfold useOf at huse
    unfold Parameter.variable?
    cases hterm : m.parameter.argument.term with
    | name written =>
      rw [hterm] at huse
      dsimp only at huse ⊢
      cases hclass : NameClass.of written with
      | «variable» =>
        rw [hclass] at huse
        dsimp only at huse
        split at huse <;> simpa using huse
      | database => simp [hclass] at huse
      | placeholder => simp [hclass] at huse
      | plain => simp [hclass] at huse
    | integer value => simp [hterm, ValueType.ofTerm?] at huse
    | real bits => simp [hterm, ValueType.ofTerm?] at huse
    | string value => simp [hterm, ValueType.ofTerm?] at huse
    | guid value => simp [hterm, ValueType.ofTerm?] at huse
  intro name huse
  rw [lookup?_extend, if_pos (hvariable huse)]
  cases scope.lookup? name <;> rfl

end RuleScope

namespace Check

variable {context : CheckContext} {scope later : RuleScope} {before : Option ScopedParameter}
  {p : ScopedParameter} {mentions : List Mention}

/-! ## One mention

What is said about a mention depends on its own variable only, which the scope has from there on. -/

theorem flowReports_of_keptIn (hkept : scope.KeptIn later) (hknows : scope.Knows p) :
    flowReports context later p = flowReports context scope p := by
  unfold flowReports
  cases huse : p.use with
  | binding name =>
    dsimp only
    rw [hkept.lookup?_eq (hknows name (.inl huse))]
  | placeholder => rfl
  | constant type => rfl
  | reference name => rfl
  | other => rfl

theorem valueType?_of_keptIn (hkept : scope.KeptIn later) (hknows : scope.Knows p) :
    valueType? context later p = valueType? context scope p := by
  unfold valueType?
  cases p.written with
  | some type => rfl
  | none =>
    cases huse : p.use with
    | reference name =>
      simp only [RuleScope.variableType, hkept.lookup?_eq (hknows name (.inr huse))]
    | constant type => rfl
    | binding name => rfl
    | placeholder => rfl
    | other => rfl

/-- The reports on a mention stay what they are in a later scope. -/
theorem mentionReports_of_keptIn (hkept : scope.KeptIn later) (hknows : scope.Knows p)
    (hbefore : ∀ left ∈ before, scope.Knows left) :
    mentionReports context later before p = mentionReports context scope before p := by
  have hleft : before.bind (valueType? context later) = before.bind (valueType? context scope) :=
    Option.bind_congr fun left hleft => valueType?_of_keptIn hkept (hbefore left hleft)
  unfold mentionReports valueReports
  rw [flowReports_of_keptIn hkept hknows, valueType?_of_keptIn hkept hknows, hleft]

/-! ## All mentions

The reports on a rule are made with the scope of the whole rule. By the sections above, the scope as
it is behind a mention would do for the reports on it, and so the mentions in front of a place are
all that counts there. -/

/-- The reports on mentions that stand behind all that is in a scope. -/
def reportsBehind (context : CheckContext) (scope : RuleScope) (before : Option ScopedParameter) :
    List Mention → List Diagnostic
  | [] => []
  | m :: mentions =>
    let next := scope.extend context.types m
    let p := scope.entry context.types m
    mentionReports context next before p ++ reportsBehind context next (some p) mentions

/-- The mention in front of what follows. -/
def lastBehind (context : CheckContext) (scope : RuleScope) (before : Option ScopedParameter) :
    List Mention → Option ScopedParameter
  | [] => before
  | m :: mentions =>
    lastBehind context (scope.extend context.types m) (some (scope.entry context.types m)) mentions

theorem reportsBehind_append (front back : List Mention) :
    reportsBehind context scope before (front ++ back) = reportsBehind context scope before front
      ++ reportsBehind context (front.foldl (RuleScope.extend context.types) scope)
        (lastBehind context scope before front) back := by
  induction front generalizing scope before with
  | nil => rfl
  | cons m front ih =>
    rw [List.cons_append, reportsBehind, ih, reportsBehind, List.append_assoc]
    rfl

/-- **The reports on a rule are those on its mentions, each behind those in front of it.** -/
theorem ruleReports_eq (context : CheckContext) (rule : Rule) :
    ruleReports context rule = reportsBehind context {} none rule.mentions := by
  -- By induction on the mentions that are left, for every scope in front of them.
  have hbehind (mentions : List Mention) (scope : RuleScope) (before : Option ScopedParameter)
      (hbefore : ∀ left ∈ before, scope.Knows left) :
      ∃ behind, (mentions.foldl (RuleScope.extend context.types) scope).parameters
          = scope.parameters ++ behind
        ∧ ((before :: behind.map some).zip behind).flatMap (fun pair => mentionReports context
            (mentions.foldl (RuleScope.extend context.types) scope) pair.1 pair.2)
          = reportsBehind context scope before mentions := by
    induction mentions generalizing scope before with
    | nil => exact ⟨[], (List.append_nil _).symm, rfl⟩
    | cons m mentions ih =>
      have hknows := RuleScope.knows_entry context.types scope m
      have hkept := RuleScope.keptIn_foldl_extend context.types scope [m]
      obtain ⟨behind, hparameters, hreports⟩ := ih (scope.extend context.types m)
        (some (scope.entry context.types m)) (by simpa using hknows)
      refine ⟨scope.entry context.types m :: behind, ?_, ?_⟩
      · rw [List.foldl_cons, hparameters, RuleScope.extend_eq, List.append_assoc,
          List.singleton_append]
      · rw [List.map_cons, List.zip_cons_cons, List.flatMap_cons, List.foldl_cons, hreports,
          reportsBehind,
          mentionReports_of_keptIn (RuleScope.keptIn_foldl_extend context.types _ mentions) hknows
            fun left hleft => (hbefore left hleft).mono hkept]
  obtain ⟨behind, hparameters, hreports⟩ :=
    hbehind rule.mentions {} none (fun left hleft => by cases hleft)
  rw [List.nil_append] at hparameters
  rw [← hreports, ← hparameters]
  rfl

/-- At the mentions of calls nothing in front counts but the variables. -/
theorem reportsBehind_congr {before' : Option ScopedParameter} (hvars : scope.vars = later.vars)
    (hcalls : ∀ m ∈ mentions, m.call.isSome) :
    reportsBehind context scope before mentions = reportsBehind context later before' mentions := by
  -- Entries and reports ask a scope for its variables only. The induction is for all pairs of
  -- scopes with the same ones, as each mention extends both in the same way.
  induction mentions generalizing scope later before before' with
  | nil => rfl
  | cons m mentions ih =>
    have hlookup (name : String) : scope.lookup? name = later.lookup? name := by
      rw [RuleScope.lookup?, hvars, RuleScope.lookup?]
    have hentry : scope.entry context.types m = later.entry context.types m := by
      simp only [RuleScope.entry, RuleScope.useOf, hlookup]
    have hnext : (scope.extend context.types m).vars = (later.extend context.types m).vars := by
      rw [RuleScope.extend_eq, RuleScope.extend_eq, hvars, hentry]
    have hnextLookup (name : String) : (scope.extend context.types m).lookup? name
        = (later.extend context.types m).lookup? name := by
      rw [RuleScope.lookup?, hnext, RuleScope.lookup?]
    rw [reportsBehind, reportsBehind, hentry,
      ih hnext fun n hn => hcalls n (List.mem_cons_of_mem m hn)]
    obtain ⟨call, hcall⟩ := Option.isSome_iff_exists.1 (hcalls m List.mem_cons_self)
    have hmention : mentionReports context (scope.extend context.types m) before
          (later.entry context.types m)
        = mentionReports context (later.extend context.types m) before'
          (later.entry context.types m) := by
      have howner : (later.entry context.types m).mention.call = some call := hcall
      simp only [mentionReports, howner, valueReports, flowReports, valueType?,
        RuleScope.variableType, hnextLookup]
    rw [hmention]

end Check

end StoryCheck
