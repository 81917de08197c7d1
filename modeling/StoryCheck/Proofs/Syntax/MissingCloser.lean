import StoryCheck.Proofs.Syntax.CallSites
import StoryCheck.Proofs.Syntax.Damage
import StoryCheck.Proofs.Syntax.OneReport

/-!
# A missing bracket or semicolon

A goal from which the closing bracket of a signature or the semicolon of an action is taken out is
read like the whole goal, with one report. Where the token is missing stands one that belongs to a
construct around, so nothing is skipped: behind a bracket THEN, AND or a semicolon, behind a
semicolon an action, a rule or a section.

* **`slips_signature`** — the bracket, and `slips_action` with the semicolon.
* **`slips_goal`** — a goal without a closing token is read up to ends.
* **`missing_closer_costs_one_report`** — what a goal without a closing token is read as.
-/

namespace StoryCheck.Syntax

open Cursor

namespace Parse

variable {α : Type} {d : Diagnostic} {s s₁ s₂ s' : Cursor} {kind : TokenKind} {stops stop : KindSet}
  {gap : Gap}

/-! ## Signatures

The closing bracket is looked for behind every parameter. Where it is missing, the reader skips to a
token where it has to stop; such a token comes next, and so nothing is skipped. -/

/-- Where a signature may stop without its closing bracket: at a token of a construct around it that
stands neither for a parameter nor between two of them. -/
structure EndsSignature (stops : KindSet) (s : Cursor) : Prop where
  stop : s.kindAt 0 ∈ stops
  kind : s.kindAt 0 ∈ [TokenKind.then, .and, .semicolon]

/-- A token of one of the three kinds is enough if the reader stops at it. -/
theorem EndsSignature.of_mem {kinds : KindSet} (h : s.kindAt 0 ∈ kinds) (hstops : kinds ⊆ stops)
    (hkinds : kinds ⊆ [TokenKind.then, .and, .semicolon]) : EndsSignature stops s :=
  ⟨hstops h, hkinds h⟩

/-- Such a token is none of another kind. -/
theorem EndsSignature.ne (h : EndsSignature stops s)
    (hkind : kind ∉ [TokenKind.then, .and, .semicolon]) : s.kindAt 0 ≠ kind :=
  fun heq => hkind (heq ▸ h.kind)

/-- Giving up on a list of parameters costs one report. -/
theorem slips_unclosed (hclean : s.reports = []) (hends : EndsSignature stops s) :
    Slips (unclosed stops) s () (s.missing "closing bracket ')'") s := by
  have hskip : skipTo ([.rParen] ++ stops) s = ((), s) :=
    skipTo_of_mem (List.mem_append_right _ hends.stop)
  refine (slips_reportMissing hclean).andThen frames_skipPast ?_
  exact .andThen hskip ⟨discard_run (eat_of_ne (hends.ne (by decide))), hclean⟩

/-- A list of parameters without its bracket is read with all its parameters. -/
theorem slips_parameterList {bound : Nat} (w : WrittenParameters) (hbound : s.ahead.length < bound)
    (hends : EndsSignature stops s') (h : s.Takes w.tokens s') :
    Slips (parameterList stops bound) s w.trees (s'.missing "closing bracket ')'") s' := by
  -- The bracket is looked for behind the last parameter only.
  induction w generalizing s bound with
  | one first =>
    have hclean := h.clean_end
    cases bound with
    | zero => omega
    | succ bound =>
      refine slips_after (isAtAny_apply _ _) ?_
      rw [if_neg (starts_parameter h)]
      refine slips_after (reads_parameter first h).run ?_
      refine slips_after (eat_of_ne (hends.ne (by decide))) ?_
      refine slips_after (eat_of_ne (hends.ne (by decide))) ?_
      exact (slips_unclosed hclean hends).andThen .pure (reads_pure hclean)
  | more first comma rest ih =>
    obtain ⟨s₁, hfirst, h⟩ := takes_append_iff.1 h
    obtain ⟨s₂, hcomma, hrest⟩ := takes_cons_iff.1 h
    cases bound with
    | zero => omega
    | succ bound =>
      have hshort : s₂.ahead.length < bound := by
        have hlength := congrArg List.length (hfirst.trans hcomma).passes.ahead
        simp only [List.length_append, List.length_cons] at hlength
        omega
      refine slips_after (isAtAny_apply _ _) ?_
      rw [if_neg (starts_parameter hfirst)]
      refine slips_after (reads_parameter first hfirst).run (slips_after (eat_of_takes hcomma) ?_)
      exact (ih hshort hrest).andThen .pure (reads_pure hrest.clean_end)

/-- Without parameters nothing is read between the brackets. -/
theorem slips_noParameters {bound : Nat} (hclean : s.reports = []) (hends : EndsSignature stops s) :
    Slips (parameterList stops (bound + 1)) s [] (s.missing "closing bracket ')'") s := by
  refine slips_after (isAtAny_apply _ _) ?_
  rw [if_pos]
  · exact (slips_unclosed hclean hends).andThen .pure (reads_pure hclean)
  · have hkind := hends.kind
    simp only [List.mem_cons, List.not_mem_nil, or_false] at hkind
    rcases hkind with hkind | hkind | hkind <;> rw [hkind] <;> decide

/-- Brackets of which the second is missing, with parameters or without. -/
theorem slips_brackets {identifier : Identifier} {owner : List Parameter}
    (opening : TokenOf .lParen) (w : Option WrittenParameters) (hends : EndsSignature stops s')
    (h : s.Takes (opening.1 :: w.toList.flatMap (·.tokens)) s') :
    Slips (do
      if (← Parse.expect .lParen "'('").isNone then
        return (identifier, owner)
      if (← Parse.eat .rParen).isSome then
        return (identifier, owner)
      return (identifier, owner ++ (← Syntax.parameterList stops ((← get).ahead.length + 1))))
      s (identifier, owner ++ w.toList.flatMap (·.trees)) (s'.missing "closing bracket ')'") s' := by
  obtain ⟨s₁, hopening, h⟩ := takes_cons_iff.1 h
  refine slips_after (expect_of_takes hopening) ?_
  have hclean := h.clean_end
  cases w with
  | none =>
    obtain ⟨rfl, -⟩ := takes_nil_iff.1 h
    refine slips_after (eat_of_ne (hends.ne (by decide))) (slips_after (get_apply _) ?_)
    exact (slips_noParameters hclean hends).andThen .pure (reads_pure hclean)
  | some w =>
    have h : s₁.Takes w.tokens s' := by simpa using h
    have hat : s₁.kindAt 0 ≠ .rParen := by
      obtain ⟨first, rest, htokens, hkind⟩ := w.exists_cons
      rw [htokens] at h
      rw [h.kindAt_zero]
      intro hbracket
      rw [hbracket] at hkind
      exact absurd hkind (by decide)
    refine slips_after (eat_of_ne hat) (slips_after (get_apply s₁) ?_)
    refine (slips_parameterList w (Nat.lt_succ_self _) hends h).andThen .pure ?_
    simpa using reads_pure hclean

/-- A signature without its bracket is read with one report. It ends earlier than it did, at the
token that comes next. -/
theorem slips_signature (w : WrittenSignature) (hends : EndsSignature stops s')
    (h : s.Takes w.unclosed s') :
    Slips (signature stops) s { w.tree with range := s.rangeTo s' }
      (s'.missing "closing bracket ')'") s' := by
  have hclean := h.clean_end
  obtain ⟨owner, name, opening, parameters, closing⟩ := w
  -- With an owner there are three tokens in front of the bracket, without it there is one.
  cases owner with
  | none =>
    refine (Slips.ranged (a := (Identifier.ofToken name,
      [] ++ parameters.toList.flatMap (·.trees))) ?_).andThen .pure (reads_pure hclean)
    obtain ⟨s₁, hname, hbrackets⟩ := takes_cons_iff.1 h
    refine slips_after (expect_of_takes hname) ?_
    refine slips_after (isAt_apply _ _) (slips_after (kindAt_apply _ _) ?_)
    have hat : s₁.kindAt 0 = .lParen := by rw [← opening.2]; exact hbrackets.kindAt_zero
    rw [if_neg (by simp [hat])]
    exact slips_after (pure_apply _ _) (slips_brackets opening parameters hends hbrackets)
  | some owner =>
    obtain ⟨owner, dot⟩ := owner
    refine (Slips.ranged (a := (Identifier.ofToken name,
      [ownerParameter owner] ++ parameters.toList.flatMap (·.trees))) ?_).andThen .pure
      (reads_pure hclean)
    obtain ⟨s₁, howner, h⟩ := takes_cons_iff.1 h
    obtain ⟨s₂, hdot, h⟩ := takes_cons_iff.1 h
    obtain ⟨s₃, hname, hbrackets⟩ := takes_cons_iff.1 h
    refine slips_after (expect_of_takes howner) ?_
    refine slips_after (isAt_apply _ _) (slips_after (kindAt_apply _ _) ?_)
    rw [if_pos (by simp [hdot.kindAt_zero, hdot.passes.kindAt_one, hname.kindAt_zero, dot.2, name.2])]
    refine slips_after (discard_run (take_of_takes hdot)) ?_
    refine slips_after (take_of_takes hname) (slips_after (pure_apply _ _) ?_)
    exact slips_brackets opening parameters hends hbrackets

/-! ## Conditions

A condition has one place for a gap if it is a call, and none if it is a comparison. -/

/-- A condition without a closing token is read with one report. -/
theorem slips_condition (w : WrittenCondition) (hgap : gap ∈ w.closers)
    (hfront : s.Takes gap.front s₁) (hback : s₁.Takes gap.back s')
    (hends : EndsSignature stops s') :
    ∃ a, Slips (condition stops) s a (s₁.missing gap.what) s'
      ∧ a.withoutEnds = w.tree.withoutEnds := by
  -- A comparison has no closing token.
  cases w with
  | comparison left operator right => cases hgap
  | call negation signature =>
    obtain rfl := List.mem_singleton.1 hgap
    obtain ⟨rfl, hclean⟩ := takes_nil_iff.1 hback
    rw [Gap.what_within, signature.what_closer]
    obtain ⟨s₂, hnegation, hsignature⟩ := takes_append_iff.1 hfront
    have hsignature : s₂.Takes signature.unclosed s' := hsignature
    have hslips := slips_signature signature hends hsignature
    refine ⟨_, (Slips.ranged (a := .call { signature.tree with range := s₂.rangeTo s' }
      negation.isSome) ?_).andThen .pure (reads_pure hclean), rfl⟩
    cases negation with
    | none =>
      obtain ⟨rfl, -⟩ := takes_nil_iff.1 hnegation
      obtain ⟨first, second, rest, htokens, hfirst, hsecond⟩ := signature.unclosed_cons
      obtain ⟨s₃, hname, hrest⟩ := takes_cons_iff.1 (htokens ▸ hsignature)
      have hat : s₂.kindAt 0 = .identifier := hname.kindAt_zero.trans hfirst
      have hnext : s₂.kindAt 1 = second.kind := hname.passes.kindAt_one.trans hrest.kindAt_zero
      refine slips_after (eat_of_ne (by simp [hat])) (slips_after (isAt_apply _ _) ?_)
      refine slips_after (kindAt_apply _ _) ?_
      rw [if_pos (by simpa [hat, hnext] using hsecond)]
      exact hslips.andThen .pure (reads_pure hclean)
    | some negation =>
      refine slips_after (eat_of_takes hnegation) ?_
      exact hslips.andThen .pure (reads_pure hclean)

/-- A step of the conditions of a rule. -/
def conjunctStep (stops : KindSet) : Parse (Option (List Condition)) := do
  if (← eat .and).isSome then
    return some [← condition (.and :: stops)]
  else
    return none

/-- The conditions of a rule are things of which one can be without its bracket: each starts with
AND, and behind the last stands THEN. -/
theorem mends_conjunct :
    Mends (conjunctStep (.then :: ruleStart ++ sectionKeywords)) WrittenConjunct.tree
      WrittenConjunct.tokens WrittenConjunct.closers Condition.withoutEnds [.and, .then] where
  frames := .bind frames_eat fun _ => .ite (.bind frames_condition fun _ => .pure) .pure
  starts w := ⟨_, _, rfl, by simp [w.and.2]⟩
  opens w gap hgap := by
    obtain ⟨inner, -, rfl⟩ := List.mem_map.1 hgap
    exact ⟨_, _, rfl, by simp [w.and.2]⟩
  reads {w s s'} htakes _ := by
    obtain ⟨s₁, hand, hcondition⟩ := takes_cons_iff.1 htakes
    refine .andThen (eat_of_takes hand) ?_
    exact .andThen (reads_condition w.condition hcondition).run (reads_pure hcondition.clean_end)
  slips {w s s₁ s'} gap hgap hfront hback hnext := by
    obtain ⟨inner, hinner, rfl⟩ := List.mem_map.1 hgap
    obtain ⟨s₂, hand, hfront⟩ := takes_cons_iff.1 hfront
    have hback : s₁.Takes inner.back s' := by simpa [Gap.within] using hback
    have hends : EndsSignature (.and :: (.then :: ruleStart ++ sectionKeywords)) s' :=
      .of_mem hnext (by decide) (by decide)
    obtain ⟨a, hslips, hwithoutEnds⟩ := slips_condition w.condition hinner hfront hback hends
    refine ⟨a, slips_after (eat_of_takes hand) ?_, hwithoutEnds⟩
    exact hslips.andThen .pure (reads_pure hslips.clean)

/-- A block of conditions, one of which is without its bracket. -/
theorem slips_conditionBlock (written : List WrittenConjunct)
    (hgap : gap ∈ Gap.along WrittenConjunct.tokens WrittenConjunct.closers written)
    (hfront : s.Takes gap.front s₁) (hback : s₁.Takes gap.back s') (hnext : s'.kindAt 0 = .then) :
    ∃ a, Slips (conditionBlock (.then :: ruleStart ++ sectionKeywords)) s a (s₁.missing gap.what) s'
      ∧ a.conditions.map (·.withoutEnds) = (written.map (·.tree)).map (·.withoutEnds) := by
  have hdeclines : Reads (conjunctStep (.then :: ruleStart ++ sectionKeywords)) s' none s' :=
    .andThen (eat_of_ne (by simp [hnext])) (reads_pure hback.clean_end)
  obtain ⟨found, hslips, hwithoutEnds⟩ :=
    mends_conjunct.many hgap hfront hback (by simp [hnext]) hdeclines
  exact ⟨_, hslips.ranged.andThen .pure (reads_pure hslips.clean), hwithoutEnds⟩

/-! ## Actions

An action can be without its bracket or without its semicolon. A missing semicolon is reported where
the next action, rule or section starts; there is nothing to be skipped, either. -/

/-- What follows the signature of an action. -/
def closeAction (stops stop : KindSet) (form : Action.Form) : Parse Action.Form := do
  if (← expect .semicolon "';'").isNone then
    if !(← isAtAny actionStart) then
      skipUntil stops (.semicolon :: stop)
      discard (eat .semicolon)
  return form

/-- What the parser does to get over a missing semicolon does not depend on the reports. -/
theorem frames_recoverAction {form : Action.Form} : Frames (do
    if !(← isAtAny actionStart) then
      skipUntil stops (.semicolon :: stop)
      discard (eat .semicolon)
    return form) := by
  refine .bind frames_isAtAny fun _ => .ite ?_ .pure
  exact .bind frames_skipUntil fun _ => .bind frames_eat.discard fun _ => .pure

/-- Nor does the end of an action. -/
theorem frames_closeAction {form : Action.Form} : Frames (closeAction stops stop form) :=
  .bind frames_expect fun _ => .ite frames_recoverAction .pure

/-- An action that ends with its semicolon is read. -/
theorem reads_closeAction {semicolon : TokenOf .semicolon} {form : Action.Form}
    (h : s.Takes [semicolon.1] s') : Reads (closeAction stops stop form) s form s' :=
  .andThen (expect_of_takes h) (reads_pure h.clean_end)

/-- Behind an action stands the next one, or the next rule or section. -/
theorem ne_semicolon (hnext : s.kindAt 0 ∈ actionStart ++ openers) : s.kindAt 0 ≠ .semicolon := by
  intro heq
  rw [heq] at hnext
  exact absurd hnext (by decide)

/-- Without its semicolon an action ends there. -/
theorem slips_closeAction {form : Action.Form} (hclean : s.reports = [])
    (hnext : s.kindAt 0 ∈ actionStart ++ openers) :
    Slips (closeAction sectionKeywords ruleStart form) s form (s.missing "';'") s := by
  have hne := ne_semicolon hnext
  refine (slips_expect hclean hne).andThen frames_recoverAction (.andThen (isAtAny_apply _ _) ?_)
  rcases List.mem_append.1 hnext with hstart | hopens
  · rw [if_neg (by simpa using hstart)]
    exact reads_pure hclean
  · rw [if_pos]
    · refine .andThen (skipTo_of_mem (List.mem_cons_of_mem _ hopens)) ?_
      exact .andThen (discard_run (eat_of_ne hne)) (reads_pure hclean)
    · have hother : ∀ kind ∈ openers, (!actionStart.contains kind) = true := by decide
      exact hother _ hopens

/-- A call in front of which NOT may stand slips if what follows does. -/
theorem slips_negated {negation : Option (TokenOf .not)} {signature : Signature}
    (hnegation : s.Takes (negation.toList.map (·.1)) s₁) (hat : s₁.kindAt 0 = .identifier)
    (hslips : Slips (do
      let signature ← Syntax.signature (.semicolon :: ruleStart ++ sectionKeywords)
      closeAction sectionKeywords ruleStart (.call signature negation.isSome)) s₁
      (.call signature negation.isSome) d s') :
    Slips (action sectionKeywords ruleStart) s ⟨.call signature negation.isSome, s.rangeTo s'⟩
      d s' := by
  refine (Slips.ranged (a := .call signature negation.isSome) ?_).andThen .pure
    (reads_pure hslips.clean)
  cases negation with
  | none =>
    obtain ⟨rfl, -⟩ := takes_nil_iff.1 hnegation
    refine slips_after (eat_of_ne (by simp [hat])) ?_
    exact slips_after (eat_of_ne (by simp [hat])) hslips
  | some negation =>
    have hnot : s.kindAt 0 = .not := hnegation.kindAt_zero.trans negation.2
    exact slips_after (eat_of_ne (by simp [hnot])) (slips_after (eat_of_takes hnegation) hslips)

/-- An action without a closing token is read with one report. -/
theorem slips_action (w : WrittenAction) (hgap : gap ∈ w.closers) (hfront : s.Takes gap.front s₁)
    (hback : s₁.Takes gap.back s') (hnext : s'.kindAt 0 ∈ actionStart ++ openers) :
    ∃ a, Slips (action sectionKeywords ruleStart) s a (s₁.missing gap.what) s'
      ∧ a.withoutEnds = w.tree.withoutEnds := by
  have hclean := hback.clean_end
  cases w with
  | goalCompleted word semicolon =>
    obtain rfl := List.mem_singleton.1 hgap
    obtain ⟨rfl, -⟩ := takes_nil_iff.1 hback
    rw [Gap.what_atSemicolon]
    refine ⟨_, (Slips.ranged (a := .goalCompleted) ?_).andThen .pure (reads_pure hclean), rfl⟩
    refine slips_after (eat_of_takes hfront) ?_
    exact (slips_expect hclean (ne_semicolon hnext)).discard.andThen .pure (reads_pure hclean)
  | call negation signature semicolon =>
    simp only [WrittenAction.closers, List.mem_cons, List.not_mem_nil, or_false] at hgap
    -- Either the bracket is missing or the semicolon.
    obtain rfl | rfl := hgap
    · obtain ⟨s₂, hnegation, hsignature⟩ := takes_append_iff.1 hfront
      have hsignature : s₂.Takes signature.unclosed s₁ := hsignature
      have hsemicolon : s₁.Takes [semicolon.1] s' := hback
      have hat : s₂.kindAt 0 = .identifier := by
        obtain ⟨first, second, rest, htokens, hfirst, -⟩ := signature.unclosed_cons
        rw [htokens] at hsignature
        exact hsignature.kindAt_zero.trans hfirst
      have hends : s₁.kindAt 0 ∈ [TokenKind.semicolon] := by
        simp [hsemicolon.kindAt_zero, semicolon.2]
      have hslips := slips_signature signature
        (.of_mem hends (by decide) (by decide) :
          EndsSignature (.semicolon :: ruleStart ++ sectionKeywords) s₁) hsignature
      rw [Gap.what_within, signature.what_closer]
      exact ⟨_, slips_negated hnegation hat (hslips.andThen frames_closeAction
        (reads_closeAction hsemicolon)), rfl⟩
    · obtain ⟨rfl, -⟩ := takes_nil_iff.1 hback
      obtain ⟨s₂, hnegation, hsignature⟩ := takes_append_iff.1 hfront
      have hat : s₂.kindAt 0 = .identifier := by
        obtain ⟨first, second, rest, htokens, hfirst, -⟩ := signature.exists_cons
        rw [htokens] at hsignature
        exact hsignature.kindAt_zero.trans hfirst
      rw [Gap.what_atSemicolon]
      exact ⟨_, slips_negated hnegation hat (slips_after (reads_signature signature hsignature).run
        (slips_closeAction hclean hnext)), rfl⟩

/-- Actions are written one behind the other up to the next rule or section. -/
theorem mends_action :
    Mends (listStep (.endOfFile :: ruleStart ++ sectionKeywords) actionStart
        (action sectionKeywords ruleStart) "action" sectionKeywords (actionStart ++ ruleStart))
      WrittenAction.tree WrittenAction.tokens WrittenAction.closers Action.withoutEnds
      (actionStart ++ openers) := by
  have hend : ∀ kind ∈ actionStart, kind ∉ TokenKind.endOfFile :: ruleStart ++ sectionKeywords := by
    decide
  -- No closer is the first token of an action, so that the action is entered as before.
  have hopens (w : WrittenAction) (gap) (hgap : gap ∈ w.closers) :
      ∃ first rest, gap.front = first :: rest ∧ first.kind ∈ actionStart := by
    obtain ⟨first, rest, htokens, hkind⟩ := w.exists_cons
    have hwhole : gap.front ++ gap.token :: gap.back = first :: rest :=
      (w.whole_closers gap hgap).trans htokens
    obtain ⟨other, front, hfront⟩ := List.exists_cons_of_ne_nil (w.front_ne_nil gap hgap)
    rw [hfront, List.cons_append] at hwhole
    exact ⟨other, front, hfront, (List.cons.inj hwhole).1 ▸ hkind⟩
  refine ⟨frames_listStep frames_action, fun w => ?_, fun w gap hgap => ?_, ?_, ?_⟩
  · obtain ⟨first, rest, htokens, hkind⟩ := w.exists_cons
    exact ⟨first, rest, htokens, List.mem_append_left _ hkind⟩
  · obtain ⟨first, rest, hfront, hkind⟩ := hopens w gap hgap
    exact ⟨first, rest, hfront, List.mem_append_left _ hkind⟩
  · intro w s s' htakes _
    have hat : s.kindAt 0 ∈ actionStart := by
      obtain ⟨first, rest, htokens, hkind⟩ := w.exists_cons
      have htakes : s.Takes (first :: rest) s' := htokens ▸ htakes
      exact htakes.kindAt_zero ▸ hkind
    exact reads_listStep (hend _ hat) hat (reads_action w htakes)
  · intro w s s₁ s' gap hgap hfront hback hnext
    have hat : s.kindAt 0 ∈ actionStart := by
      obtain ⟨first, rest, htokens, hkind⟩ := hopens w gap hgap
      have hfront : s.Takes (first :: rest) s₁ := htokens ▸ hfront
      exact hfront.kindAt_zero ▸ hkind
    obtain ⟨a, hslips, hwithoutEnds⟩ := slips_action w hgap hfront hback hnext
    exact ⟨a, slips_listStep (hend _ hat) hat hslips, hwithoutEnds⟩

/-- A block of actions, one of which is without a closing token. -/
theorem slips_actionBlock (written : List WrittenAction) (next : Token)
    (hgap : gap ∈ WrittenAction.closersAlong written) (hfront : s.Takes gap.front s₁)
    (hback : s₁.Takes gap.back s') (hends : EndsActions s') :
    ∃ a, Slips (actionBlock sectionKeywords ruleStart) s a (s₁.missing gap.what) s'
      ∧ a.withoutEnds = (WrittenAction.block written next).withoutEnds := by
  have hdeclines : Reads (listStep (.endOfFile :: ruleStart ++ sectionKeywords) actionStart
      (action sectionKeywords ruleStart) "action" sectionKeywords (actionStart ++ ruleStart))
      s' none s' :=
    ⟨listStep_of_end (List.mem_cons_of_mem _ hends), hback.clean_end⟩
  obtain ⟨found, hslips, hwithoutEnds⟩ :=
    mends_action.many hgap hfront hback (List.mem_append_right _ hends) hdeclines
  rw [actionBlock_eq]
  refine ⟨_, hslips.ranged.andThen .pure (reads_pure hslips.clean), ?_⟩
  rw [ActionBlock.withoutEnds, hwithoutEnds]
  rfl

/-! ## Rules

The tail of a rule, from THEN on, is split off: a gap lies in the head, in the conditions or in the
tail. -/

/-- What follows the conditions of a rule. -/
def ruleTail (result : ActionBlock → α) : Parse α := do
  if (← expect .then "'THEN'").isNone then
    if !((← isAt .identifier) && (← kindAt 1) == .lParen) then
      skipUntil sectionKeywords (.then :: ruleStart)
      discard (eat .then)
  let actions ← actionBlock sectionKeywords ruleStart
  if actions.actions.isEmpty then
    report (.warning .emptyActionBlock "Rule has no actions; use DB_NOOP(1); as a no-op"
      actions.range.span)
  return result actions

/-- The rule that is put together from a keyword and what follows it. -/
def ruleOf (keyword : Token) (head : Signature) (conditions : ConditionBlock)
    (actions : ActionBlock) (range : Range) : Rule :=
  { kind := ruleKind keyword.kind
    head, conditions, actions
    region := keyword.region
    comment := keyword.comment
    range }

/-- The body of a rule, with its tail split off. -/
theorem ruleBody_eq (keyword : Token) :
    ruleBody sectionKeywords keyword = (do
      let head ← signature ([.then, .and] ++ ruleStart ++ sectionKeywords)
      let conditions ← conditionBlock (.then :: ruleStart ++ sectionKeywords)
      ruleTail (ruleOf keyword head conditions)) := rfl

/-- The tail does not depend on the reports. -/
theorem frames_ruleTail {result : ActionBlock → α} : Frames (ruleTail result) := by
  refine .bind frames_expect fun _ => .ite ?_ frames_nonemptyBlock
  refine .bind frames_isAt fun _ => .bind (frames_kindAt 1) fun _ => .ite ?_ frames_nonemptyBlock
  exact .bind frames_skipUntil fun _ => .bind frames_eat.discard fun _ => frames_nonemptyBlock

section Tail

variable {w : WrittenRule} {result : ActionBlock → α}

/-- A tail that was written is read. -/
theorem reads_ruleTail (hends : EndsActions s') (h : s.Takes w.consequence s') :
    Reads (ruleTail result) s (result (WrittenAction.block (w.action :: w.actions) s'.peek))
      s' := by
  obtain ⟨s₁, hmark, hactions⟩ := takes_cons_iff.1 h
  refine .andThen (expect_of_takes hmark) ?_
  refine .andThen (reads_actionBlock (w.action :: w.actions) hends hactions).run ?_
  rw [if_neg (by simp [WrittenAction.block])]
  exact reads_pure hactions.clean_end

/-- A tail with a gap in it is read with one report. -/
theorem slips_ruleTail (hgap : gap ∈ WrittenAction.closersAlong (w.action :: w.actions))
    (hfront : s.Takes (w.mark.1 :: gap.front) s₁) (hback : s₁.Takes gap.back s')
    (hends : EndsActions s') :
    ∃ block, Slips (ruleTail result) s (result block) (s₁.missing gap.what) s'
      ∧ block.withoutEnds = (WrittenAction.block (w.action :: w.actions)).withoutEnds := by
  obtain ⟨s₂, hmark, hfront⟩ := takes_cons_iff.1 hfront
  obtain ⟨block, hslips, hwithoutEnds⟩ := slips_actionBlock _ {} hgap hfront hback hends
  refine ⟨block, slips_after (expect_of_takes hmark) (hslips.andThen ?_ ?_), hwithoutEnds⟩
  · exact .ite (.bind (frames_report _) fun _ => .pure) .pure
  · -- There are as many actions as were written, so at least one.
    have hlength := congrArg (fun block => block.actions.length) hwithoutEnds
    simp only [ActionBlock.withoutEnds, WrittenAction.block, List.length_map,
      List.length_cons] at hlength
    rw [if_neg]
    · exact reads_pure hslips.clean
    · intro hempty
      simp [List.isEmpty_iff.1 hempty] at hlength

end Tail

/-- The body of a rule with a gap in it is read with one report, and the other parts are what they
were. -/
theorem slips_ruleBody (w : WrittenRule) (hgap : gap ∈ w.bodyClosers)
    (hfront : s.Takes gap.front s₁) (hback : s₁.Takes gap.back s') (hends : EndsActions s') :
    ∃ head conditions actions, Slips (ruleBody sectionKeywords w.keyword) s
        (ruleOf w.keyword head conditions actions) (s₁.missing gap.what) s'
      ∧ head.withoutEnds = w.head.tree.withoutEnds
      ∧ conditions.conditions.map (·.withoutEnds) = (w.conditions.map (·.tree)).map (·.withoutEnds)
      ∧ actions.withoutEnds = (WrittenAction.block (w.action :: w.actions)).withoutEnds := by
  have hmark {s s' : Cursor} (h : s.Takes w.consequence s') : s.kindAt 0 = .then :=
    h.kindAt_zero.trans w.mark.2
  simp only [ruleBody_eq]
  -- The gap is in the head, in a condition or in an action.
  rcases List.mem_cons.1 hgap with rfl | hgap
  case inl =>
    -- Behind the head stands AND or THEN, of which none can be a parameter.
    have hhead : s.Takes w.head.unclosed s₁ := hfront
    have hback : s₁.Takes (w.conditions.flatMap (·.tokens) ++ w.consequence) s' := hback
    obtain ⟨s₂, hconditions, htail⟩ := takes_append_iff.1 hback
    have hnext : s₁.kindAt 0 ∈ [TokenKind.and, .then] :=
      mends_conjunct.kindAt_of_takes (by simp [hmark htail]) hconditions
    rw [Gap.what_within, w.head.what_closer]
    refine ⟨_, _, _, (slips_signature w.head (.of_mem hnext (by decide) (by decide)) hhead).andThen
      (.bind frames_conditionBlock fun _ => frames_ruleTail)
      (.andThen (reads_conditionBlock w.conditions (by simp [hmark htail]) hconditions).run
        (reads_ruleTail hends htail)), rfl, rfl, rfl⟩
  rcases List.mem_append.1 hgap with hgap | hgap
  case inl =>
    obtain ⟨inner, hinner, rfl⟩ := List.mem_map.1 hgap
    obtain ⟨s₂, hhead, hfront⟩ := takes_append_iff.1 hfront
    obtain ⟨s₃, hback, htail⟩ := takes_append_iff.1 hback
    obtain ⟨conditions, hslips, hwithoutEnds⟩ :=
      slips_conditionBlock w.conditions hinner hfront hback (hmark htail)
    exact ⟨_, conditions, _, slips_after (reads_signature w.head hhead).run
      (hslips.andThen frames_ruleTail (reads_ruleTail hends htail)), rfl, hwithoutEnds, rfl⟩
  case inr =>
    obtain ⟨inner, hinner, rfl⟩ := List.mem_map.1 hgap
    have hfront : s.Takes (w.head.tokens ++ (w.conditions.flatMap (·.tokens)
        ++ (w.mark.1 :: inner.front))) s₁ := by
      simpa [Gap.within] using hfront
    have hback : s₁.Takes inner.back s' := by simpa [Gap.within] using hback
    obtain ⟨s₂, hhead, hfront⟩ := takes_append_iff.1 hfront
    obtain ⟨s₃, hconditions, hfront⟩ := takes_append_iff.1 hfront
    have hnext : s₃.kindAt 0 ≠ .and := by
      rw [hfront.kindAt_zero, w.mark.2]
      decide
    obtain ⟨actions, hslips, hwithoutEnds⟩ := slips_ruleTail hinner hfront hback hends
    exact ⟨_, _, actions, slips_after (reads_signature w.head hhead).run
      (slips_after (reads_conditionBlock w.conditions hnext hconditions).run hslips), rfl, rfl,
      hwithoutEnds⟩

/-- A rule with a gap in it is read with one report. -/
theorem slips_rule (w : WrittenRule) (hgap : gap ∈ w.closers) (hfront : s.Takes gap.front s₁)
    (hback : s₁.Takes gap.back s') (hends : EndsActions s') :
    ∃ a, Slips (rule sectionKeywords) s a (s₁.missing gap.what) s'
      ∧ a.withoutEnds = w.tree.withoutEnds := by
  obtain ⟨inner, hinner, rfl⟩ := List.mem_map.1 hgap
  obtain ⟨s₂, hkeyword, hfront⟩ := takes_cons_iff.1 hfront
  have hback : s₁.Takes inner.back s' := by simpa [Gap.within] using hback
  obtain ⟨head, conditions, actions, hslips, hhead, hconditions, hactions⟩ :=
    slips_ruleBody w hinner hfront hback hends
  refine ⟨ruleOf w.keyword head conditions actions (s.rangeTo s'), ⟨?_, hslips.clean⟩, ?_⟩
  · rw [rule_apply, take_of_takes hkeyword]
    dsimp only
    rw [hslips.run]
    rfl
  · simp only [Rule.withoutEnds, ruleOf, WrittenRule.tree, hhead, hconditions, hactions,
      w.keyword.2, ruleKind_opener]

/-- Rules are written one behind the other up to the next section. -/
theorem mends_rule :
    Mends (listStep (.endOfFile :: sectionKeywords) ruleStart (rule sectionKeywords)
        "rule (IF, PROC or QRY)" sectionKeywords ruleStart)
      WrittenRule.tree WrittenRule.tokens WrittenRule.closers Rule.withoutEnds openers := by
  have hend : ∀ kind ∈ ruleStart, kind ∉ TokenKind.endOfFile :: sectionKeywords := by decide
  have hkeyword (w : WrittenRule) : w.keyword.1.kind ∈ ruleStart := by
    rw [w.keyword.2]
    cases w.kind <;> decide
  refine ⟨frames_listStep frames_rule, fun w => ?_, fun w gap hgap => ?_, ?_, ?_⟩
  · exact ⟨_, _, rfl, List.mem_append_left _ (hkeyword w)⟩
  · obtain ⟨inner, -, rfl⟩ := List.mem_map.1 hgap
    exact ⟨_, _, rfl, List.mem_append_left _ (hkeyword w)⟩
  · intro w s s' htakes hends
    have hat := kindAt_writtenRule htakes
    exact reads_listStep (hend _ hat) hat (reads_rule w hends htakes)
  · intro w s s₁ s' gap hgap hfront hback hends
    have hat : s.kindAt 0 ∈ ruleStart := by
      obtain ⟨inner, -, rfl⟩ := List.mem_map.1 hgap
      have hfront : s.Takes (w.keyword.1 :: inner.front) s₁ := hfront
      exact hfront.kindAt_zero ▸ hkeyword w
    obtain ⟨a, hslips, hwithoutEnds⟩ := slips_rule w hgap hfront hback hends
    exact ⟨a, slips_listStep (hend _ hat) hat hslips, hwithoutEnds⟩

/-- So are the rules of a goal, one of which has a gap in it. -/
theorem slips_rules (written : List WrittenRule)
    (hgap : gap ∈ Gap.along WrittenRule.tokens WrittenRule.closers written)
    (hfront : s.Takes gap.front s₁) (hback : s₁.Takes gap.back s')
    (hstop : s'.kindAt 0 ∈ sectionKeywords) :
    ∃ found, Slips (rules sectionKeywords) s found (s₁.missing gap.what) s'
      ∧ found.map (·.withoutEnds) = (written.map (·.tree)).map (·.withoutEnds) := by
  rw [rules_eq]
  exact mends_rule.many hgap hfront hback (List.mem_append_right _ hstop)
    ⟨listStep_of_end (List.mem_cons_of_mem _ hstop), hback.clean_end⟩

/-! ## Goals

A goal is read in three parts: up to the rules, the rules, and from the EXIT section on. A gap is in
one of them, and the other two are read. -/

/-- The first part, with a gap in the INIT section. -/
theorem slips_goalFront (w : WrittenGoal) (hgap : gap ∈ WrittenAction.closersAlong w.init)
    (hfront : s.Takes (w.header.flatMap (·.tokens) ++ w.initSection.1 :: gap.front) s₁)
    (hback : s₁.Takes (gap.back ++ [w.kbSection.1]) s') :
    ∃ init, Slips goalFront s (w.header.map (·.tree), init) (s₁.missing gap.what) s'
      ∧ init.withoutEnds = (WrittenAction.block w.init w.kbSection).withoutEnds := by
  obtain ⟨s₂, hheader, hfront⟩ := takes_append_iff.1 hfront
  obtain ⟨s₃, hinitSection, hfront⟩ := takes_cons_iff.1 hfront
  obtain ⟨s₄, hback, hkbSection⟩ := takes_append_iff.1 hback
  have hinitAt : s₂.kindAt 0 = .initSection := hinitSection.kindAt_zero.trans w.initSection.2
  have hkbAt : s₄.kindAt 0 = .kbSection := hkbSection.kindAt_zero.trans w.kbSection.2
  obtain ⟨init, hslips, hwithoutEnds⟩ := slips_actionBlock w.init w.kbSection hgap hfront hback
    (by simp [EndsActions, hkbAt, sectionKeywords])
  refine ⟨init, slips_after (reads_headerOptions w.header hinitAt hheader).run ?_, hwithoutEnds⟩
  refine slips_after (discard_run (expect_of_takes hinitSection)) ?_
  refine hslips.andThen (.bind frames_expect.discard fun _ => .pure) ?_
  exact .andThen (discard_run (expect_of_takes hkbSection)) (reads_pure hkbSection.clean_end)

/-- The last part, with a gap in the EXIT section. -/
theorem slips_goalBack (w : WrittenGoal) (hgap : gap ∈ WrittenAction.closersAlong w.exit)
    (hfront : s.Takes (w.exitSection.1 :: gap.front) s₁)
    (hback : s₁.Takes (gap.back ++ w.endExitSection.1 :: w.footer.flatMap (·.tokens)) s')
    (hahead : s'.ahead = []) :
    ∃ exit, Slips goalBack s (exit, w.footer.map (·.tree)) (s₁.missing gap.what) s'
      ∧ exit.withoutEnds = (WrittenAction.block w.exit w.endExitSection).withoutEnds := by
  obtain ⟨s₂, hexitSection, hfront⟩ := takes_cons_iff.1 hfront
  obtain ⟨s₃, hback, hrest⟩ := takes_append_iff.1 hback
  obtain ⟨s₄, hendSection, hfooter⟩ := takes_cons_iff.1 hrest
  have hendAt : s₃.kindAt 0 = .endExitSection :=
    hendSection.kindAt_zero.trans w.endExitSection.2
  obtain ⟨exit, hslips, hwithoutEnds⟩ := slips_actionBlock w.exit w.endExitSection hgap hfront hback
    (by simp [EndsActions, hendAt, sectionKeywords])
  refine ⟨exit, slips_after (discard_run (expect_of_takes hexitSection)) ?_, hwithoutEnds⟩
  refine hslips.andThen
    (.bind frames_expect.discard fun _ => .bind frames_footerOptions fun _ => .pure) ?_
  refine .andThen (discard_run (expect_of_takes hendSection)) ?_
  exact .andThen (reads_footerOptions w.footer hahead hfooter).run (reads_pure hfooter.clean_end)

/-- A goal is put together from its front, its rules and its back. -/
theorem goal_of_parts {header footer : List GoalOption} {init exit : ActionBlock}
    {found : List Rule} (hfront : goalFront s = ((header, init), s₁))
    (hrules : rules sectionKeywords s₁ = (found, s₂))
    (hback : goalBack s₂ = ((exit, footer), s')) :
    goal s
      = ({ options := header ++ footer, init, rules := found, exit, range := s.rangeTo s' }, s') := by
  rw [goal_apply, hfront]
  dsimp only
  rw [hrules]
  dsimp only
  rw [hback]

/-- A goal with a gap in it is read with one report, and the tree is that of the whole goal but for
where things end. -/
theorem slips_goal (w : WrittenGoal) (hgap : gap ∈ w.closers) (hfront : s.Takes gap.front s₁)
    (hback : s₁.Takes gap.back s') (hahead : s'.ahead = []) :
    ∃ a, Slips goal s a (s₁.missing gap.what) s' ∧ a.withoutEnds = w.tree.withoutEnds := by
  have hclean := hback.clean_end
  have hexitAt {s s' : Cursor} (h : s.Takes w.back s') : s.kindAt 0 ∈ sectionKeywords := by
    have h : s.Takes (w.exitSection.1 :: _) s' := h
    simp [h.kindAt_zero, w.exitSection.2, sectionKeywords]
  simp only [WrittenGoal.closers, List.mem_append, List.mem_map] at hgap
  obtain (⟨inner, hinner, rfl⟩ | ⟨inner, hinner, rfl⟩) | ⟨inner, hinner, rfl⟩ := hgap
  -- The gap is in the INIT section, in a rule or in the EXIT section.
  · have hfront : s.Takes (w.header.flatMap (·.tokens) ++ w.initSection.1 :: inner.front) s₁ := by
      simpa [Gap.within] using hfront
    have hback : s₁.Takes ((inner.back ++ [w.kbSection.1])
        ++ (w.rules.flatMap (·.tokens) ++ w.back)) s' := by
      simpa [Gap.within] using hback
    obtain ⟨s₂, hkbSection, hrest⟩ := takes_append_iff.1 hback
    obtain ⟨s₃, hrules, hrest⟩ := takes_append_iff.1 hrest
    obtain ⟨init, hslips, hwithoutEnds⟩ := slips_goalFront w hinner hfront hkbSection
    have hread := reads_rules w.rules (hexitAt hrest) hrules
    refine ⟨_, ⟨goal_of_parts hslips.run (frames_rules.behind hread _)
      (frames_goalBack.behind (reads_goalBack w hahead hrest) _), hclean⟩, ?_⟩
    simp only [Goal.withoutEnds, hwithoutEnds]
    rfl
  · obtain ⟨s₂, hopening, hfront⟩ := takes_append_iff.1 hfront
    obtain ⟨s₃, hback, hrest⟩ := takes_append_iff.1 hback
    obtain ⟨found, hslips, hwithoutEnds⟩ :=
      slips_rules w.rules hinner hfront hback (hexitAt hrest)
    refine ⟨_, ⟨goal_of_parts (reads_goalFront w hopening).run hslips.run
      (frames_goalBack.behind (reads_goalBack w hahead hrest) _), hclean⟩, ?_⟩
    simp only [Goal.withoutEnds, hwithoutEnds]
    rfl
  · have hfront : s.Takes (w.front
        ++ (w.rules.flatMap (·.tokens) ++ w.exitSection.1 :: inner.front)) s₁ := by
      simpa [Gap.within] using hfront
    obtain ⟨s₂, hopening, hfront⟩ := takes_append_iff.1 hfront
    obtain ⟨s₃, hrules, hfront⟩ := takes_append_iff.1 hfront
    have hstop : s₃.kindAt 0 ∈ sectionKeywords := by
      simp [hfront.kindAt_zero, w.exitSection.2, sectionKeywords]
    obtain ⟨exit, hslips, hwithoutEnds⟩ := slips_goalBack w hinner hfront hback hahead
    refine ⟨_, ⟨goal_of_parts (reads_goalFront w hopening).run
      (reads_rules w.rules hstop hrules).run hslips.run, hclean⟩, ?_⟩
    simp only [Goal.withoutEnds, hwithoutEnds]
    rfl

end Parse

/-! ## What a missing token costs

The theorem is put together from what each production does around the gap. Behind the gap the reader
is at the token at which it would have been anyway. -/

open Parse

/-- **A missing bracket or semicolon costs one report.** Without the closing bracket of a signature
or the semicolon of an action, a goal that is written by the grammar gives one report, which says
what is missing in front of the next token, and the same calls and comparisons. -/
theorem missing_closer_costs_one_report (list : TokenList) (w : WrittenGoal) (gap : Gap)
    (hlexical : list.reports = []) (htokens : list.tokens = w.tokens) (hgap : gap ∈ w.closers) :
    let whole := parseGoalTokens list
    let damaged := parseGoalTokens (list.withTokens (gap.front ++ gap.back))
    list.tokens = gap.front ++ gap.token :: gap.back
      ∧ whole.diagnostics = []
      ∧ damaged.diagnostics = [gap.report list.last]
      ∧ damaged.tree.callSites = whole.tree.callSites
      ∧ damaged.tree.comparisons = whole.tree.comparisons := by
  intro whole damaged
  obtain ⟨after, hrun, hsilent⟩ := goal_run_written w htokens
  have hwhole : whole = _ := parseGoalTokens_of_run hrun
  have hall : (list.withTokens (gap.front ++ gap.back)).tokens = gap.front ++ gap.back := rfl
  obtain ⟨s₁, hfront, hback⟩ := takes_append_iff.1 (takes_all hall)
  obtain ⟨tree, hslips, htree⟩ := slips_goal w hgap hfront hback rfl
  have hdamaged : damaged = _ := parseGoalTokens_of_run hslips.run
  have hpeek : s₁.peek = gap.back.headD list.last := by
    have hahead : s₁.ahead = gap.back := by simpa using hback.passes.ahead
    rw [Cursor.peek, hahead, hfront.passes.ending.trans rfl]
    rfl
  have hreport : s₁.missing gap.what = gap.report list.last := by
    rw [Cursor.missing, hpeek, Gap.report]
  rw [hwhole, hdamaged, hreport]
  refine ⟨htokens.trans (w.whole_closers gap hgap).symm, ?_, ?_, ?_, ?_⟩
  · simp [hlexical, hsilent, Diagnostic.sortBySpan]
  · show Diagnostic.sortBySpan (list.reports ++ [gap.report list.last]) = _
    simp [hlexical, Diagnostic.sortBySpan]
  · rw [← Goal.callSites_withoutEnds, htree, Goal.callSites_withoutEnds]
  · rw [← Goal.comparisons_withoutEnds, htree, Goal.comparisons_withoutEnds]

/-- A goal with one rule. -/
def plainRule : String := "INITSECTION KBSECTION PROC A() THEN B(); EXITSECTION ENDEXITSECTION"

/-- The head of a rule loses its bracket. The report is made at the token THEN behind it. -/
theorem plainRule_without_bracket :
    ∃ gap ∈ (Sketch.oneRule 0 12).closers, gap.token = .onLine .rParen ")" 29
      ∧ (parseGoalTokens ((TokenList.ofText plainRule).withTokens (gap.front ++ gap.back))).diagnostics
        = [.missingToken "closing bracket ')'" ⟨31, 35⟩] := by
  have htokens : (TokenList.ofText plainRule).tokens = (Sketch.oneRule 0 12).tokens := by
    decide +kernel
  have hlexical : (TokenList.ofText plainRule).reports = [] := by decide +kernel
  obtain ⟨gap, hgap, htoken, hreport⟩ : ∃ gap ∈ (Sketch.oneRule 0 12).closers,
      gap.token = .onLine .rParen ")" 29
        ∧ gap.report (TokenList.ofText plainRule).last
          = .missingToken "closing bracket ')'" ⟨31, 35⟩ := by
    decide +kernel
  have hcost := missing_closer_costs_one_report (.ofText plainRule) _ gap hlexical htokens hgap
  exact ⟨gap, hgap, htoken, hreport ▸ hcost.2.2.1⟩

end StoryCheck.Syntax
