import Mathlib.Data.List.Nodup
import StoryCheck.Proofs.Symbol.CallSites

/-!
# Scopes, mention by mention

What a mention adds to the scope of a rule depends on the variables that stand in it so far: a variable
that does not is bound by the mention, and all others are left as they are. So a variable is its first
mention.

* **`extend_eq`** — what a mention adds.
* **`lookup?_foldl_extend`** — a variable is its first mention.
* **`isBuilt_ofRule`** — the variables are those that the mentions bind, each once.
-/

namespace StoryCheck

open Syntax

/-- The variable that a parameter mentions. -/
def Syntax.Parameter.variable? (parameter : Parameter) : Option String :=
  match parameter.argument.term with
  | .name name => if NameClass.of name = .variable then some name else none
  | _ => none

/-- A variable by a mention of it. -/
def Variable.ofMention (types : TypeRegistry) (name : String) (m : Mention) : Variable where
  name
  written := writtenType? types m.parameter
  call := m.call
  index := m.index
  binder := m.parameter.argument.range

/-- The variable that is bound by a mention. -/
def ScopedParameter.binder? (types : TypeRegistry) (p : ScopedParameter) : Option Variable :=
  match p.use with
  | .binding name => some (.ofMention types name p.mention)
  | _ => none

namespace RuleScope

variable {types : TypeRegistry} {scope : RuleScope} {m : Mention} {mentions : List Mention}
  {name : String} {v : Variable}

/-! ## One mention

What a mention does in a scope is to bind a variable, to use one, or neither. It binds just if its
variable is not in the scope yet. -/

/-- What a parameter contributes behind all that is in a scope. -/
def useOf (scope : RuleScope) (parameter : Parameter) : ArgumentUse :=
  match parameter.argument.term with
  | .name name =>
    match NameClass.of name with
    | .variable => if (scope.lookup? name).isSome then .reference name else .binding name
    | .placeholder => .placeholder
    | _ => .other
  | term => ((ValueType.ofTerm? term).map .constant).getD .other

/-- A mention behind all that is in a scope. -/
def entry (types : TypeRegistry) (scope : RuleScope) (m : Mention) : ScopedParameter where
  mention := m
  use := scope.useOf m.parameter
  written := writtenType? types m.parameter

/-- A mention adds its entry, and the variable that it binds if it binds one. -/
theorem extend_eq (types : TypeRegistry) (scope : RuleScope) (m : Mention) : extend types scope m
    = { vars := scope.vars ++ ((scope.entry types m).binder? types).toList
        parameters := scope.parameters ++ [scope.entry types m] } := by
  obtain ⟨⟨flow, type, ⟨term, place⟩, range⟩, call, index⟩ := m
  unfold extend entry useOf ScopedParameter.binder?
  cases term with
  | name name =>
    dsimp only
    cases NameClass.of name with
    | «variable» =>
      dsimp only
      by_cases hknown : (scope.lookup? name).isSome
      · simp [hknown]
      · simp [hknown, Variable.ofMention]
    | database => rfl
    | placeholder => rfl
    | plain => rfl
  | integer value => rfl
  | real bits => rfl
  | string value => rfl
  | guid value => rfl

/-- A mention binds a variable just if it names one that is not in the scope. -/
theorem useOf_eq_binding_iff {parameter : Parameter} : scope.useOf parameter = .binding name
    ↔ parameter.variable? = some name ∧ scope.lookup? name = none := by
  unfold useOf Parameter.variable?
  cases parameter.argument.term with
  | name written =>
    dsimp only
    cases hclass : NameClass.of written with
    | «variable» =>
      -- A variable binds if the scope does not have it yet.
      rw [if_pos rfl, Option.some.injEq]
      dsimp only
      split
      case isTrue hknown =>
        refine iff_of_false nofun ?_
        rintro ⟨rfl, hnone⟩
        simp [hnone] at hknown
      case isFalse hfresh =>
        rw [ArgumentUse.binding.injEq]
        refine (and_iff_left_of_imp ?_).symm
        rintro rfl
        simpa using hfresh
    | database => simp
    | placeholder => simp
    | plain => simp
  | integer value => simp [ValueType.ofTerm?]
  | real bits => simp [ValueType.ofTerm?]
  | string value => simp [ValueType.ofTerm?]
  | guid value => simp [ValueType.ofTerm?]

/-- The variable that is bound is that of the mention. -/
theorem binder?_entry_eq_some_iff : (scope.entry types m).binder? types = some v
    ↔ ∃ name, m.parameter.variable? = some name ∧ scope.lookup? name = none
      ∧ v = .ofMention types name m := by
  have hbinder : (scope.entry types m).binder? types = some v
      ↔ ∃ name, scope.useOf m.parameter = .binding name ∧ v = .ofMention types name m := by
    unfold entry ScopedParameter.binder?
    cases scope.useOf m.parameter with
    | binding name => simp [eq_comm]
    | constant type => simp
    | reference name => simp
    | placeholder => simp
    | other => simp
  simp only [hbinder, useOf_eq_binding_iff, and_assoc]

/-- A variable is found if it was in the scope or is the one that was mentioned. -/
theorem lookup?_extend (types : TypeRegistry) (scope : RuleScope) (m : Mention) (name : String) :
    (extend types scope m).lookup? name = (scope.lookup? name).or
      (if m.parameter.variable? = some name then some (.ofMention types name m) else none) := by
  rw [extend_eq, lookup?, List.find?_append]
  show (scope.lookup? name).or _ = _
  cases hlookup : scope.lookup? name with
  | some v => rfl
  | none =>
    rw [Option.none_or, Option.none_or]
    -- The name is new, so that it is found if the mention is the one that binds it.
    cases hbinder : (scope.entry types m).binder? types with
    | none =>
      rw [if_neg]
      · rfl
      · intro hname
        have hsome : (scope.entry types m).binder? types = some (.ofMention types name m) :=
          binder?_entry_eq_some_iff.2 ⟨name, hname, hlookup, rfl⟩
        rw [hbinder] at hsome
        cases hsome
    | some v =>
      obtain ⟨other, hother, -, rfl⟩ := binder?_entry_eq_some_iff.1 hbinder
      rw [hother, Option.toList_some]
      by_cases heq : other = name
      · subst heq
        simp [Variable.ofMention]
      · simp [Variable.ofMention, heq]

/-! ## All mentions

The scope of a rule is built from its mentions in their order. So a lookup finds the first mention,
and questions about scopes become questions about lists of mentions. -/

/-- **A variable is its first mention.** -/
theorem lookup?_foldl_extend (types : TypeRegistry) (scope : RuleScope) (mentions : List Mention)
    (name : String) : (mentions.foldl (extend types) scope).lookup? name = (scope.lookup? name).or
      ((mentions.find? fun m => m.parameter.variable? == some name).map (.ofMention types name)) := by
  induction mentions generalizing scope with
  | nil => simp
  | cons m mentions ih =>
    rw [List.foldl_cons, ih, lookup?_extend, Option.or_assoc]
    by_cases hname : m.parameter.variable? = some name
    · simp [hname]
    · simp [hname]

/-- A variable of a rule is its first mention. -/
theorem lookup?_ofRule (types : TypeRegistry) (rule : Rule) (name : String) :
    (ofRule types rule).lookup? name
      = (rule.mentions.find? fun m => m.parameter.variable? == some name).map
        (.ofMention types name) := by
  rw [ofRule, lookup?_foldl_extend]
  rfl

/-- The variables of a scope are those that its mentions bind, each once. -/
structure IsBuilt (types : TypeRegistry) (scope : RuleScope) : Prop where
  vars : scope.vars = scope.parameters.filterMap (·.binder? types)
  distinct : (scope.vars.map (·.name)).Nodup

/-- A scope without variables. -/
theorem isBuilt_empty : IsBuilt types {} := ⟨rfl, List.nodup_nil⟩

/-- One mention more. -/
theorem IsBuilt.extend (h : IsBuilt types scope) (m : Mention) :
    IsBuilt types (extend types scope m) := by
  rw [extend_eq]
  refine ⟨?_, ?_⟩
  · rw [List.filterMap_append, ← h.vars]
    -- It binds a variable that was not there, or nothing.
    cases hbinder : (scope.entry types m).binder? types <;> simp [hbinder]
  · cases hbinder : (scope.entry types m).binder? types with
    | none => simpa using h.distinct
    | some v =>
      obtain ⟨name, -, hfresh, rfl⟩ := binder?_entry_eq_some_iff.1 hbinder
      have hnew : name ∉ scope.vars.map (·.name) := by
        rw [lookup?, List.find?_eq_none] at hfresh
        rintro hmem
        obtain ⟨v, hv, hname⟩ := List.mem_map.1 hmem
        exact hfresh v hv (beq_iff_eq.2 hname)
      rw [Option.toList_some, List.map_append, List.map_singleton, ← List.concat_eq_append]
      exact List.Nodup.concat hnew h.distinct

/-- **A scope is built from the mentions of its rule.** -/
theorem isBuilt_ofRule (types : TypeRegistry) (rule : Rule) : IsBuilt types (ofRule types rule) := by
  have hfold (mentions : List Mention) (scope : RuleScope) (h : IsBuilt types scope) :
      IsBuilt types (mentions.foldl (RuleScope.extend types) scope) := by
    induction mentions generalizing scope with
    | nil => exact h
    | cons m mentions ih => exact ih _ (h.extend m)
  exact hfold rule.mentions {} isBuilt_empty

/-- In a scope that is built every variable is found under its name. -/
theorem IsBuilt.lookup?_eq_some_iff (h : IsBuilt types scope) :
    scope.lookup? name = some v ↔ v ∈ scope.vars ∧ v.name = name := by
  have hsound {v : Variable} (hv : scope.lookup? name = some v) : v ∈ scope.vars ∧ v.name = name :=
    ⟨List.mem_of_find?_eq_some hv, by simpa using List.find?_some hv⟩
  refine ⟨hsound, ?_⟩
  rintro ⟨hmem, hname⟩
  obtain ⟨found, hfound⟩ : ∃ found, scope.lookup? name = some found :=
    Option.isSome_iff_exists.1 (List.find?_isSome.2 ⟨v, hmem, beq_iff_eq.2 hname⟩)
  obtain ⟨hfoundmem, hfoundname⟩ := hsound hfound
  rw [hfound, List.inj_on_of_nodup_map h.distinct hfoundmem hmem (hfoundname.trans hname.symm)]

end RuleScope

end StoryCheck
