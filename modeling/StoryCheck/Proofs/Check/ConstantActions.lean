import StoryCheck.Proofs.Check.RuleReports
import StoryCheck.Proofs.Check.UnboundVariables
import StoryCheck.Proofs.Lists

/-!
# Actions on constants

An action that hands over constants only means the same in a rule and in a section. Its reports are the
same as well, seen from where it stands, with one exception: behind a written type that does not exist
a rule takes the value for contradictory, which fits everywhere, and a section for what the constant is.

* **`literalReports`** — the reports on a constant that counts as a value of some type.
* **`ruleReports_insert`** — what an action on constants adds to the reports on a rule.
* **`IsMisfit`** — the exception.
* **`constant_actions_are_checked_alike_iff`** — without it the reports are the same.
-/

namespace StoryCheck

open Syntax

/-! ## The same call elsewhere

An action in a rule and the same action in a section stand at different places of a text. What is
compared is therefore seen from where the action starts. -/

/-- A span as it is seen from an offset of the text. -/
def Span.seenFrom (origin : Nat) (span : Span) : Int × Int :=
  ((span.start : Int) - origin, (span.stop : Int) - origin)

/-- A report as it is seen from an offset of the text. -/
def Diagnostic.seenFrom (origin : Nat) (d : Diagnostic) :
    Severity × Code × String × (Int × Int) :=
  (d.severity, d.code, d.message, d.span.seenFrom origin)

namespace Syntax

/-- The same parameter, seen from two offsets of texts. The flow that is written plays no role. -/
structure Parameter.SeenAlike (here there : Nat) (p q : Parameter) : Prop where
  type : p.type.map (·.name) = q.type.map (·.name)
  term : p.argument.term = q.argument.term
  argument : p.argument.range.span.seenFrom here = q.argument.range.span.seenFrom there
  range : p.range.span.seenFrom here = q.range.span.seenFrom there

/-- The same name with the same parameters, seen from where it starts. -/
structure Signature.SeenAlike (here there : Signature) : Prop where
  name : here.identifier.name = there.identifier.name
  parameters : List.Forall₂ (Parameter.SeenAlike here.range.span.start there.range.span.start)
    here.parameters there.parameters

instance (here there : Nat) (p q : Parameter) : Decidable (p.SeenAlike here there q) :=
  decidable_of_iff (p.type.map (·.name) = q.type.map (·.name) ∧ p.argument.term = q.argument.term
      ∧ p.argument.range.span.seenFrom here = q.argument.range.span.seenFrom there
      ∧ p.range.span.seenFrom here = q.range.span.seenFrom there)
    ⟨fun ⟨type, term, argument, range⟩ => ⟨type, term, argument, range⟩,
      fun ⟨type, term, argument, range⟩ => ⟨type, term, argument, range⟩⟩

instance (here there : Signature) : Decidable (here.SeenAlike there) :=
  decidable_of_iff (here.identifier.name = there.identifier.name
      ∧ here.parameters.length = there.parameters.length
      ∧ ∀ pair ∈ here.parameters.zip there.parameters,
        pair.1.SeenAlike here.range.span.start there.range.span.start pair.2)
    ⟨fun ⟨name, length, zip⟩ => ⟨name, List.forall₂_iff_zip.2 ⟨length, fun h => zip _ h⟩⟩,
      fun ⟨name, parameters⟩ => ⟨name, (List.forall₂_iff_zip.1 parameters).1,
        fun _ h => (List.forall₂_iff_zip.1 parameters).2 h⟩⟩

/-- Whether a parameter is a constant. -/
def Parameter.isConstant (parameter : Parameter) : Bool :=
  (ValueType.ofTerm? parameter.argument.term).isSome

/-- A rule with other actions. -/
def Rule.withActions (rule : Rule) (actions : List Action) : Rule :=
  { rule with actions := { rule.actions with actions } }

end Syntax

namespace Check

variable {context : CheckContext} {call site : Call} {index : Nat} {p q : Parameter}
  {found own : ValueType} {here there : Nat}

/-! ## Constants

A constant brings no variable, has no direction and needs no name to be looked up. What is left of
its check is whether its type is that of the parameter, and there the rule and the section may start
from different types. -/

/-- What a section takes a constant for: the written type, if it exists. -/
def typeInSection (types : TypeRegistry) (parameter : Parameter) : ValueType :=
  (parameter.type.bind fun written => types.resolve? written.name).getD
    ((ValueType.ofTerm? parameter.argument.term).getD .unknown)

/-- What a rule takes a constant for: the written type, if there is one. -/
def typeInRule (types : TypeRegistry) (parameter : Parameter) : ValueType :=
  (writtenType? types parameter).getD
    ((ValueType.ofTerm? parameter.argument.term).getD .unknown)

/-- The reports on a constant at a call that counts as a value of type `found`. -/
def literalReports (context : CheckContext) (call : Call) (found : ValueType) (index : Nat)
    (parameter : Parameter) : List Diagnostic :=
  writtenTypeReports context.types parameter
    ++ match handover? context call index parameter with
      | some h =>
        typeReports context.types h found (isString parameter.argument.term)
          ++ constantReports context.types context.environment h
      | none => []

theorem sectionReports_of_constant (hconstant : p.isConstant) : sectionReports context call index p
    = literalReports context call (typeInSection context.types p) index p := by
  obtain ⟨own, hown⟩ := Option.isSome_iff_exists.1 hconstant
  unfold sectionReports literalReports sectionType? typeInSection
  rw [hown]
  cases hterm : p.argument.term with
  | name name => simp [hterm, ValueType.ofTerm?] at hown
  | integer value => cases handover? context call index p <;> rfl
  | real bits => cases handover? context call index p <;> rfl
  | string value => cases handover? context call index p <;> rfl
  | guid value => cases handover? context call index p <;> rfl

theorem useOf_of_constant (scope : RuleScope) (hown : ValueType.ofTerm? p.argument.term = some own) :
    scope.useOf p = .constant own := by
  unfold RuleScope.useOf
  cases hterm : p.argument.term with
  | name name => simp [hterm, ValueType.ofTerm?] at hown
  | integer value => simp_all
  | real bits => simp_all
  | string value => simp_all
  | guid value => simp_all

theorem isString_eq (hown : ValueType.ofTerm? p.argument.term = some own) :
    isString p.argument.term = (ArgumentUse.constant own == .constant .string) := by
  cases hterm : p.argument.term <;> simp_all [ValueType.ofTerm?, isString] <;> subst own <;> decide

theorem mentionReports_of_constant {scope final : RuleScope} {before : Option ScopedParameter}
    (hconstant : p.isConstant) :
    mentionReports context final before (scope.entry context.types ⟨p, some call, index⟩)
      = literalReports context call (typeInRule context.types p) index p := by
  obtain ⟨own, hown⟩ := Option.isSome_iff_exists.1 hconstant
  have huse := useOf_of_constant scope hown
  unfold mentionReports flowReports valueReports valueType? isConstant RuleScope.entry literalReports
    typeInRule
  rw [huse, isString_eq hown, hown, List.append_nil]
  dsimp only
  cases handover? context call index p <;> cases writtenType? context.types p <;> rfl

/-! ## Actions of rules

As it brings no variables, an action on constants changes nothing for those behind it. So its
reports can be put among those of the rule without any other change. -/

/-- Constants bring no variables. -/
theorem vars_extend_of_constant {types : TypeRegistry} {scope : RuleScope} {owner : Option Call}
    (hconstant : p.isConstant) : (scope.extend types ⟨p, owner, index⟩).vars = scope.vars := by
  obtain ⟨own, hown⟩ := Option.isSome_iff_exists.1 hconstant
  rw [RuleScope.extend_eq]
  simp [RuleScope.entry, ScopedParameter.binder?, useOf_of_constant scope hown]

/-- What an action on constants is reported for in a rule. -/
def literalActionReports (context : CheckContext) (call : Call) : List Diagnostic :=
  call.signature.parameters.zipIdx.flatMap fun (parameter, index) =>
    literalReports context call (typeInRule context.types parameter) index parameter

theorem reportsBehind_constants (scope : RuleScope) (before : Option ScopedParameter)
    (hconstant : ∀ p ∈ call.signature.parameters, p.isConstant) :
    reportsBehind context scope before call.mentions = literalActionReports context call
      ∧ (call.mentions.foldl (RuleScope.extend context.types) scope).vars = scope.vars := by
  unfold Call.mentions literalActionReports
  generalize call.signature.parameters = parameters at hconstant
  generalize 0 = index
  induction parameters generalizing scope before index with
  | nil => exact ⟨rfl, rfl⟩
  | cons p parameters ih =>
    have hp := hconstant p List.mem_cons_self
    obtain ⟨hreports, hvars⟩ := ih (scope.extend context.types ⟨p, some call, index⟩)
      (some (scope.entry context.types ⟨p, some call, index⟩))
      (fun q hq => hconstant q (List.mem_cons_of_mem p hq)) (index + 1)
    rw [List.zipIdx_cons, List.map_cons, List.flatMap_cons, reportsBehind, List.foldl_cons]
    exact ⟨congrArg₂ _ (mentionReports_of_constant hp) hreports,
      hvars.trans (vars_extend_of_constant hp)⟩

theorem mentions_withActions (rule : Rule) (front back : List Action) :
    (rule.withActions (front ++ back)).mentions = (rule.withActions front).mentions
      ++ back.flatMap fun action => mentionsAt (action.call? .action rule.range) := by
  unfold Rule.mentions
  rw [flatMap_calls, flatMap_calls]
  show _ ++ (front ++ back).flatMap _ = _
  rw [List.flatMap_append, ← List.append_assoc]
  rfl

/-- **What an action on constants adds to the reports on a rule.** It changes none of the others. -/
theorem ruleReports_insert (context : CheckContext) (rule : Rule) (front back : List Action)
    {action : Action} (hcall : action.call? .action rule.range = some call)
    (hconstant : ∀ p ∈ call.signature.parameters, p.isConstant) :
    ∃ behind, ruleReports context (rule.withActions (front ++ action :: back))
        = ruleReports context (rule.withActions front) ++ literalActionReports context call ++ behind
      ∧ ruleReports context (rule.withActions (front ++ back))
        = ruleReports context (rule.withActions front) ++ behind := by
  simp only [ruleReports_eq, mentions_withActions]
  rw [List.flatMap_cons, hcall]
  show ∃ behind, reportsBehind _ _ _ (_ ++ (call.mentions ++ _)) = _ ∧ _
  rw [reportsBehind_append, reportsBehind_append, reportsBehind_append]
  generalize (rule.withActions front).mentions.foldl (RuleScope.extend context.types) {} = scope
  generalize lastBehind context {} none (rule.withActions front).mentions = before
  obtain ⟨(hreports : reportsBehind context _ _ _ = _), hvars⟩ :=
    reportsBehind_constants scope before hconstant
  rw [hreports, ← List.append_assoc]
  -- The actions behind it find the same variables with and without it.
  refine ⟨_, rfl, congrArg _ (reportsBehind_congr hvars.symm ?_)⟩
  intro m hm
  obtain ⟨other, -, hother⟩ := List.mem_flatMap.1 hm
  cases hsite : other.call? .action rule.range with
  | none => simp [hsite, mentionsAt] at hother
  | some site =>
    rw [hsite] at hother
    rw [(Call.mem_mentions_iff.1 hother).1]
    rfl

/-! ## From two places

Each part of the check puts its reports at the parameter and takes nothing else from the place.
Moving the parameter moves the reports. -/

theorem handover?_eq_map (hkey : call.key = site.key) (p q : Parameter) :
    handover? context call index p
      = (handover? context site index q).map fun h => { h with given := p } := by
  unfold handover? CheckContext.knownSymbol? CheckContext.symbol?
  rw [hkey]
  cases (context.symbols.get? site.key).filter fun s => s.kind != .unknown with
  | none => rfl
  | some symbol => cases h : symbol.parameters[index]? <;> simp [h]

section SeenAlike

variable (halike : p.SeenAlike here there q)

include halike

theorem seenFrom_writtenTypeReports (types : TypeRegistry) :
    (writtenTypeReports types p).map (·.seenFrom here)
      = (writtenTypeReports types q).map (·.seenFrom there) := by
  have htype := halike.type
  have hrange := halike.range
  unfold writtenTypeReports
  cases hp : p.type <;> cases hq : q.type <;> simp_all
  split <;> simp [Diagnostic.seenFrom, Diagnostic.error, hrange]

theorem seenFrom_typeReports (types : TypeRegistry) (h : Handover) (found : ValueType)
    (isString : Bool) :
    (typeReports types { h with given := p } found isString).map (·.seenFrom here)
      = (typeReports types { h with given := q } found isString).map (·.seenFrom there) := by
  have hrange := halike.range
  unfold typeReports
  dsimp only
  split
  · rfl
  · split
    · rfl
    · simp [Diagnostic.seenFrom, Diagnostic.typeMismatch, Diagnostic.error, hrange]

theorem seenFrom_outputReports (h : Handover) :
    (outputReports { h with given := p }).map (·.seenFrom here)
      = (outputReports { h with given := q }).map (·.seenFrom there) := by
  have hrange := halike.range
  unfold outputReports
  dsimp only
  split
  · simp [Diagnostic.seenFrom, Diagnostic.error, hrange]
  · rfl

theorem seenFrom_memberReports (environment : Environment) (h : Handover) :
    (memberReports environment { h with given := p }).map (·.seenFrom here)
      = (memberReports environment { h with given := q }).map (·.seenFrom there) := by
  have hargument := halike.argument
  unfold memberReports
  dsimp only
  rw [halike.term]
  split
  · split
    · rfl
    · simp [Diagnostic.seenFrom, Diagnostic.warning, hargument]
  · rfl

theorem seenFrom_instanceReports (types : TypeRegistry) (environment : Environment) (h : Handover) :
    (instanceReports types environment { h with given := p }).map (·.seenFrom here)
      = (instanceReports types environment { h with given := q }).map (·.seenFrom there) := by
  have hargument := halike.argument
  unfold instanceReports objectReports
  dsimp only
  rw [halike.term]
  split
  · rfl
  · split
    · split
      · simp [Diagnostic.seenFrom, Diagnostic.warning, hargument]
      · rw [List.map_append, List.map_append]
        congr 1
        · split
          · split
            · rfl
            · simp [Diagnostic.seenFrom, Diagnostic.warning, hargument]
          · rfl
        · split
          · rfl
          · simp [Diagnostic.seenFrom, Diagnostic.warning, hargument]
    · rfl

theorem typeInSection_eq (types : TypeRegistry) : typeInSection types p = typeInSection types q := by
  have htype := halike.type
  unfold typeInSection
  rw [halike.term]
  cases hp : p.type <;> cases hq : q.type <;> simp_all

/-- The reports on a constant are the same from two places. -/
theorem seenFrom_literalReports (hkey : call.key = site.key) (found : ValueType) :
    (literalReports context call found index p).map (·.seenFrom here)
      = (literalReports context site found index q).map (·.seenFrom there) := by
  unfold literalReports constantReports
  rw [List.map_append, List.map_append, seenFrom_writtenTypeReports halike,
    handover?_eq_map hkey p q, handover?_eq_map (rfl : site.key = site.key) q p]
  cases handover? context site index p with
  | none => rfl
  | some h =>
    simp only [Option.map_some, List.map_append, seenFrom_typeReports halike,
      seenFrom_outputReports halike, seenFrom_memberReports halike, seenFrom_instanceReports halike,
      halike.term]

end SeenAlike

/-- The reports on an action of a section are those on its constants, seen from anywhere else. -/
theorem seenFrom_sectionActionReports (halike : site.signature.SeenAlike call.signature)
    (hconstant : ∀ q ∈ call.signature.parameters, q.isConstant) :
    (sectionActionReports context site).map (·.seenFrom site.signature.range.span.start)
      = (call.signature.parameters.zipIdx.flatMap fun (q, index) =>
          literalReports context call (typeInSection context.types q) index q).map
        (·.seenFrom call.signature.range.span.start) := by
  have hkey : site.key = call.key := by
    simp only [Call.key, Call.name, Call.arity, Signature.arity, halike.name,
      halike.parameters.length_eq]
  have hparameters := halike.parameters
  unfold sectionActionReports
  generalize site.signature.parameters = ps at hparameters
  generalize call.signature.parameters = qs at hparameters hconstant
  generalize 0 = index
  induction hparameters generalizing index with
  | nil => rfl
  | @cons p q ps qs hpq _ ih =>
    have hp : p.isConstant := by
      rw [Parameter.isConstant, hpq.term]
      exact hconstant q List.mem_cons_self
    rw [List.zipIdx_cons, List.zipIdx_cons, List.flatMap_cons, List.flatMap_cons, List.map_append,
      List.map_append, ih (fun r hr => hconstant r (List.mem_cons_of_mem q hr)) (index + 1)]
    refine congrArg (· ++ _) ?_
    dsimp only
    rw [sectionReports_of_constant hp, typeInSection_eq hpq, seenFrom_literalReports hpq hkey]

/-! ## Misfits

A written type that does not exist is where the two checks differ. A rule then knows no type and
leaves the constant alone, while a section takes the type of the constant itself and finds that it
does not fit. -/

/-- A constant behind a written type that does not exist, which does not fit by what it is. -/
structure IsMisfit (context : CheckContext) (call : Call) (index : Nat) (parameter : Parameter) :
    Prop where
  unknown : ∃ written ∈ parameter.type, context.types.resolve? written.name = none
  refused : ∃ h own, handover? context call index parameter = some h
    ∧ ValueType.ofTerm? parameter.argument.term = some own
    ∧ typeReports context.types h own (isString parameter.argument.term) ≠ []

/-- What is contradictory fits everywhere. -/
theorem typeReports_invalid (types : TypeRegistry) (h : Handover) (isString : Bool) :
    typeReports types h .invalid isString = [] := by
  unfold typeReports TypeRegistry.isAssignable
  simp [ValueType.isKnown]

section WrittenType

variable {types : TypeRegistry}

theorem typeInRule_of_unknown (hunknown : ∃ written ∈ p.type, types.resolve? written.name = none) :
    typeInRule types p = .invalid := by
  obtain ⟨written, htype, hnone⟩ := hunknown
  simp [typeInRule, writtenType?, Option.mem_def.1 htype, TypeRegistry.resolve, hnone]

theorem typeInSection_of_unknown
    (hunknown : ∃ written ∈ p.type, types.resolve? written.name = none)
    (hown : ValueType.ofTerm? p.argument.term = some own) : typeInSection types p = own := by
  obtain ⟨written, htype, hnone⟩ := hunknown
  simp [typeInSection, Option.mem_def.1 htype, hnone, hown]

theorem typeInSection_of_known
    (hknown : ¬ ∃ written ∈ p.type, types.resolve? written.name = none) :
    typeInSection types p = typeInRule types p := by
  unfold typeInSection typeInRule writtenType?
  cases htype : p.type with
  | none => rfl
  | some written =>
    rw [Option.bind_some, Option.map_some, TypeRegistry.resolve]
    cases hresolve : types.resolve? written.name with
    | none => exact absurd ⟨written, htype, hresolve⟩ hknown
    | some type => rfl

end WrittenType

theorem isMisfit_iff {h : Handover}
    (hunknown : ∃ written ∈ p.type, context.types.resolve? written.name = none)
    (hhandover : handover? context call index p = some h)
    (hown : ValueType.ofTerm? p.argument.term = some own) : IsMisfit context call index p
      ↔ typeReports context.types h own (isString p.argument.term) ≠ [] := by
  constructor
  · rintro ⟨-, h', own', hh, hown', hrefused⟩
    rw [hhandover] at hh
    rw [hown] at hown'
    obtain ⟨rfl, rfl⟩ : h = h' ∧ own = own' := ⟨Option.some.inj hh, Option.some.inj hown'⟩
    exact hrefused
  · exact fun hrefused => ⟨hunknown, h, own, hhandover, hown, hrefused⟩

/-- A section reports all that a rule does, and more exactly for a misfit. -/
theorem literalReports_inRule (context : CheckContext) (call : Call) (index : Nat)
    (hconstant : p.isConstant) :
    (literalReports context call (typeInRule context.types p) index p).Sublist
        (literalReports context call (typeInSection context.types p) index p)
      ∧ (literalReports context call (typeInSection context.types p) index p
          = literalReports context call (typeInRule context.types p) index p
        ↔ ¬ IsMisfit context call index p) := by
  obtain ⟨own, hown⟩ := Option.isSome_iff_exists.1 hconstant
  by_cases hunknown : ∃ written ∈ p.type, context.types.resolve? written.name = none
  · rw [typeInRule_of_unknown hunknown, typeInSection_of_unknown hunknown hown]
    unfold literalReports
    cases hhandover : handover? context call index p with
    | none =>
      refine ⟨List.Sublist.refl _, iff_of_true rfl ?_⟩
      rintro ⟨-, h, _, hh, -⟩
      rw [hhandover] at hh
      cases hh
    | some h =>
      -- What the section adds is the report on the type that the constant has by itself.
      dsimp only
      rw [typeReports_invalid, List.nil_append, isMisfit_iff hunknown hhandover hown, not_not,
        List.append_right_inj, List.append_left_eq_self]
      exact ⟨(List.sublist_append_right _ _).append_left _, Iff.rfl⟩
  · rw [typeInSection_of_known hunknown]
    exact ⟨List.Sublist.refl _, iff_of_true rfl fun hmisfit => hunknown hmisfit.unknown⟩

/-- **An action on constants is reported for alike in a rule and in a section, exactly if none of its
constants is a misfit.** In the rule its reports stand between those on what is in front of it and those
on what follows, which it leaves as they are. -/
theorem constant_actions_are_checked_alike_iff (context : CheckContext) (rule : Rule)
    (front back : List Action) {action : Action} {inRule inSection : Call}
    (hcall : action.call? .action rule.range = some inRule)
    (hconstant : ∀ p ∈ inRule.signature.parameters, p.isConstant)
    (halike : inSection.signature.SeenAlike inRule.signature) :
    ∃ own behind, ruleReports context (rule.withActions (front ++ action :: back))
        = ruleReports context (rule.withActions front) ++ own ++ behind
      ∧ ruleReports context (rule.withActions (front ++ back))
        = ruleReports context (rule.withActions front) ++ behind
      ∧ ((sectionActionReports context inSection).map
            (·.seenFrom inSection.signature.range.span.start)
          = own.map (·.seenFrom inRule.signature.range.span.start)
        ↔ ∀ index p, inRule.signature.parameters[index]? = some p →
          ¬ IsMisfit context inRule index p) := by
  obtain ⟨behind, hwith, hwithout⟩ := ruleReports_insert context rule front back hcall hconstant
  refine ⟨literalActionReports context inRule, behind, hwith, hwithout, ?_⟩
  rw [seenFrom_sectionActionReports halike hconstant]
  have hslot {pair : Parameter × Nat} (hpair : pair ∈ inRule.signature.parameters.zipIdx) :
      inRule.signature.parameters[pair.2]? = some pair.1 := List.mem_zipIdx_iff_getElem?.1 hpair
  have hpointwise {pair : Parameter × Nat} (hpair : pair ∈ inRule.signature.parameters.zipIdx) :=
    literalReports_inRule context inRule pair.2
      (hconstant pair.1 (List.mem_of_getElem? (hslot hpair)))
  constructor
  · -- As a section reports no less for any constant, equal lengths leave no room for a misfit.
    intro hsame index p hp
    have hpair : (p, index) ∈ inRule.signature.parameters.zipIdx := List.mem_zipIdx_iff_getElem?.2 hp
    have hlength := congrArg List.length hsame
    rw [List.length_map, List.length_map, literalActionReports,
      length_flatMap_eq_iff fun pair hpair => (hpointwise hpair).1] at hlength
    exact (hpointwise hpair).2.1 (hlength (p, index) hpair)
  · intro hfit
    refine congrArg _ (List.flatMap_congr fun pair hpair => ?_)
    exact (hpointwise hpair).2.2 (hfit pair.2 pair.1 (hslot hpair))

/-- Some bytes of a text, wherever its lines begin. -/
def bytesAt (start stop : Nat) : Range := ⟨⟨start, stop⟩, default, default⟩

/-- `Pay((NOPE)"x")` or `Pay((NOPE)700)` at an offset of a text. -/
def payment (term : Term) (offset : Nat) : Signature where
  identifier := ⟨"Pay", bytesAt offset (offset + 3)⟩
  parameters :=
    [{ flow := none
       type := some ⟨"NOPE", bytesAt (offset + 5) (offset + 9)⟩
       argument := ⟨term, bytesAt (offset + 10) (offset + 13)⟩
       range := bytesAt (offset + 4) (offset + 13) }]
  range := bytesAt offset (offset + 14)

/-- A story that declares `call Pay((INTEGER)_Sum)` and no types. -/
def toll : CheckContext where
  goal := default
  goalNames := []
  symbols := ⟨[{
    key := ⟨"Pay", 1⟩
    kind := .call
    isSystem := true
    needsUpdate := false
    parameters := [{ name := "Sum", type := .integer }] }]⟩
  types := {}
  environment := {}

/-- `IF Start() THEN`, without actions. -/
def onStart : Rule where
  kind := .ifRule
  head := ⟨⟨"Start", bytesAt 40 45⟩, [], bytesAt 40 47⟩
  conditions := ⟨[], bytesAt 48 52⟩
  actions := ⟨[], bytesAt 53 53⟩
  region := none
  comment := none
  range := bytesAt 37 68

/-- The payment in the rule. -/
def paidInRule (term : Term) : Call := ⟨payment term 53, .action, false, onStart.range⟩

/-- The payment in the INIT section. -/
def paidInSection (term : Term) : Call := ⟨payment term 12, .initAction, false, none⟩

/-- The action of the rule. -/
def payOnStart (term : Term) : Action := ⟨.call (payment term 53) false, bytesAt 53 68⟩

/-- A number for a number is reported for its written type alone, in both places. -/
theorem unknown_type_is_reported_alike :
    (payOnStart (.integer 700)).call? .action onStart.range = some (paidInRule (.integer 700))
      ∧ (∀ p ∈ (paidInRule (.integer 700)).signature.parameters, p.isConstant)
      ∧ (paidInSection (.integer 700)).signature.SeenAlike (paidInRule (.integer 700)).signature
      ∧ ∃ own behind,
        ruleReports toll (onStart.withActions [payOnStart (.integer 700)])
          = ruleReports toll (onStart.withActions []) ++ own ++ behind
        ∧ (sectionActionReports toll (paidInSection (.integer 700))).map (·.seenFrom 12)
          = own.map (·.seenFrom 53)
        ∧ own.map (·.code) = [.unknownType] := by
  obtain ⟨hcall, hconstant, halike, hcodes⟩ :
      (payOnStart (.integer 700)).call? .action onStart.range = some (paidInRule (.integer 700))
      ∧ (∀ p ∈ (paidInRule (.integer 700)).signature.parameters, p.isConstant)
      ∧ (paidInSection (.integer 700)).signature.SeenAlike (paidInRule (.integer 700)).signature
      ∧ (sectionActionReports toll (paidInSection (.integer 700))).map (·.code) = [.unknownType] := by
    decide
  obtain ⟨own, behind, hwith, -, halike_iff⟩ :=
    constant_actions_are_checked_alike_iff toll onStart [] [] hcall hconstant halike
  have hfits : ∀ pair ∈ (paidInRule (.integer 700)).signature.parameters.zipIdx,
      ∀ h ∈ handover? toll (paidInRule (.integer 700)) pair.2 pair.1,
        ∀ own ∈ ValueType.ofTerm? pair.1.argument.term,
          typeReports toll.types h own (isString pair.1.argument.term) = [] := by
    decide
  have hsame := halike_iff.2 fun index p hp hmisfit => by
    obtain ⟨-, h, own, hh, hown, hrefused⟩ := hmisfit
    exact hrefused (hfits (p, index) (List.mem_zipIdx_iff_getElem?.2 hp) h hh own hown)
  have hcode : own.map (·.code) = [.unknownType] := by
    have hboth := congrArg (List.map fun seen => seen.2.1) hsame
    rw [List.map_map, List.map_map] at hboth
    exact hboth.symm.trans hcodes
  exact ⟨hcall, hconstant, halike, own, behind, hwith, hsame, hcode⟩

/-- A string for a number behind a written type that does not exist: the section reports it twice. -/
theorem misfit_is_reported_in_sections_only :
    (payOnStart (.string "x")).call? .action onStart.range = some (paidInRule (.string "x"))
      ∧ (∀ p ∈ (paidInRule (.string "x")).signature.parameters, p.isConstant)
      ∧ (paidInSection (.string "x")).signature.SeenAlike (paidInRule (.string "x")).signature
      ∧ (sectionActionReports toll (paidInSection (.string "x"))).map (·.code)
        = [.unknownType, .typeMismatch]
      ∧ (ruleReports toll (onStart.withActions [payOnStart (.string "x")])).map (·.code)
        = [.unknownType] := by
  decide

end Check

end StoryCheck
