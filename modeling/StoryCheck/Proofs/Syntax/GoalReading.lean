import StoryCheck.Proofs.Syntax.SignatureReading
import StoryCheck.Proofs.Syntax.SilentGoal

/-!
# Reading goals

What was read without a report was written, and what is written is read, for conditions, actions,
rules, options and whole goals.

* **`Reads.goal`** — what was read is a silent goal.
* **`reads_silentGoal`** — a silent goal is read to the end of the text.

A block of actions goes on as long as it can, so that what is written in one is read only where it
ends (`EndsActions`). The same goes for options, behind which no semicolon may stand.
-/

namespace StoryCheck.Syntax

/-! ## What an action starts with -/

/-- What an action starts with is told by its first token. -/
theorem WrittenAction.exists_cons (w : WrittenAction) :
    ∃ first rest, w.tokens = first :: rest ∧ first.kind ∈ actionStart := by
  rcases w with ⟨word, semicolon⟩ | ⟨_ | negation, signature, semicolon⟩
  · exact ⟨_, _, rfl, by simp [word.2, actionStart]⟩
  · obtain ⟨first, second, rest, htokens, hkind, -⟩ := signature.exists_cons
    exact ⟨first, second :: rest ++ [semicolon.1], by simp [tokens, htokens],
      by simp [hkind, actionStart]⟩
  · exact ⟨_, _, rfl, by simp [negation.2, actionStart]⟩

/-- An action has tokens, so a list of actions cannot go on without end. -/
theorem WrittenAction.tokens_ne_nil (w : WrittenAction) : w.tokens ≠ [] := by
  obtain ⟨first, rest, htokens, -⟩ := w.exists_cons
  exact htokens ▸ List.cons_ne_nil first rest

namespace Parse

open Cursor

variable {s s₁ s' : Cursor} {kind : TokenKind} {kinds stops stop : KindSet}

/-! ## Conditions

Each part of the grammar has two lemmas. The one in front of whose name `Reads` stands takes a
silent run apart: what was read is written, by the tokens that were taken. The other one says that
what is written is read so. In the first kind the silence is handed from the last step to the first,
since a step behind which nothing was reported has reported nothing itself. -/

/-- A comparison that was read in silence has a sign and two sides. -/
theorem Reads.comparison {form : Condition.Form} (hend : s'.ending.kind = .endOfFile)
    (h : Reads (comparison stops) s form s') :
    ∃ (left : WrittenParameter) (operator : WrittenOperator) (right : WrittenParameter),
      form = .comparison operator.operator left.tree (.parameter right.tree)
        ∧ s.Takes (left.tokens ++ operator.token :: right.tokens) s' := by
  obtain ⟨left, s₁, hleft, h⟩ := h.bind
  have h := h.after (kindAt_apply _ _)
  dsimp only at h
  cases hoperator : Operator.ofKind? (s₁.kindAt 0) with
  -- Without a sign there would be a report, and a report that is held back needs an earlier one.
  | none =>
    rw [hoperator] at h
    have hskip {form : Range → Condition.Form} :
        Advances (do skipUntil stops []; return form (← missingRange)) :=
      .bind advances_skipUntil fun _ => .bind advances_missingRange fun _ => .pure
    have hadvances := Advances.clean (.bind advances_isReportedHere fun _ =>
      .ite (.bind (advances_reportUnexpected _) fun _ => hskip) hskip) h
    exact absurd (h.after (isReportedHere_apply hadvances)) (not_reads_unexpected hskip)
  | some operator =>
    rw [hoperator] at h
    obtain ⟨_, s₂, htake, h⟩ := h.bind
    obtain ⟨right, s₃, hright, h⟩ := h.bind
    obtain ⟨rfl, rfl⟩ := h.of_pure
    have hright : Reads _ s₂ right s' := ⟨hright, h.clean⟩
    obtain ⟨right, rfl, hthird⟩ := hright.parameter hend
    obtain ⟨token, htake⟩ := Reads.discard ⟨htake, hthird.clean⟩
    obtain ⟨rfl, hsecond⟩ := htake.take (by rintro heq; rw [heq] at hoperator; cases hoperator)
    obtain ⟨left, rfl, hfirst⟩ := Reads.parameter (hsecond.ends (hthird.ends hend)) ⟨hleft, hsecond.clean⟩
    exact ⟨left, ⟨s₁.peek, operator, hsecond.kindAt_zero ▸ hoperator⟩, right, rfl,
      hfirst.trans (hsecond.cons hthird)⟩

/-- Two parameters with a sign between them are read as a comparison. -/
theorem reads_comparison (left : WrittenParameter) (operator : WrittenOperator)
    (right : WrittenParameter) (h : s.Takes (left.tokens ++ operator.token :: right.tokens) s') :
    Reads (comparison stops) s
      (.comparison operator.operator left.tree (.parameter right.tree)) s' := by
  obtain ⟨s₁, hleft, h⟩ := takes_append_iff.1 h
  obtain ⟨s₂, hoperator, hright⟩ := takes_cons_iff.1 h
  refine .andThen (reads_parameter left hleft).run (.andThen (kindAt_apply _ _) ?_)
  rw [hoperator.kindAt_zero, operator.reads]
  refine .andThen (discard_run (take_of_takes hoperator)) ?_
  exact .andThen (reads_parameter right hright).run (reads_pure hright.clean_end)

/-- A condition that was read in silence is a call, perhaps with NOT in front, or a comparison. -/
theorem Reads.condition {a : Condition} (hend : s'.ending.kind = .endOfFile)
    (h : Reads (condition stops) s a s') :
    ∃ w : WrittenCondition, a = w.tree ∧ s.Takes w.tokens s' := by
  obtain ⟨form, hread, rfl⟩ := h.of_ranged (g := Condition.mk) fun _ _ => rfl
  -- The form first; the range around it is that of the tokens taken, of which there is at least
  -- one.
  obtain ⟨w, rfl, htakes⟩ : ∃ w : WrittenCondition, form = w.form ∧ s.Takes w.tokens s' := by
    obtain ⟨negation, s₁, hnot, h⟩ := hread.bind
    split at h
    next hsome =>
      obtain ⟨signature, s₂, hsignature, h⟩ := h.bind
      obtain ⟨rfl, rfl⟩ := h.of_pure
      obtain ⟨signature, rfl, hsecond⟩ := Reads.signature hend ⟨hsignature, h.clean⟩
      obtain ⟨negation, rfl, hfirst⟩ | ⟨rfl, -⟩ := Reads.eat (by decide) ⟨hnot, hsecond.clean⟩
      · exact ⟨.call (some negation) signature, rfl, hfirst.cons hsecond⟩
      · cases hsome
    next hnone =>
      have h := (h.after (isAt_apply _ _)).after (kindAt_apply _ _)
      -- Where NOT was not taken, asking for it has changed nothing.
      have hnot : s₁.reports = [] → s₁ = s := by
        intro hclean
        obtain ⟨negation, rfl, -⟩ | ⟨-, heq, -⟩ := Reads.eat (by decide) ⟨hnot, hclean⟩
        · exact absurd rfl hnone
        · exact heq
      split at h
      · obtain ⟨signature, s₂, hsignature, h⟩ := h.bind
        obtain ⟨rfl, rfl⟩ := h.of_pure
        obtain ⟨signature, rfl, htakes⟩ := Reads.signature hend ⟨hsignature, h.clean⟩
        obtain rfl := hnot htakes.clean
        exact ⟨.call none signature, rfl, htakes⟩
      · obtain ⟨left, operator, right, rfl, htakes⟩ := h.comparison hend
        obtain rfl := hnot htakes.clean
        exact ⟨.comparison left operator right, rfl, htakes⟩
  have hne : w.tokens ≠ [] := by
    cases w <;> simp [WrittenCondition.tokens, WrittenSignature.tokens]
  exact ⟨w, by rw [htakes.rangeTo_of_ne_nil hne]; rfl, htakes⟩

/-- A written condition is read. Which of the two forms comes is told by the first two tokens. -/
theorem reads_condition (w : WrittenCondition) (h : s.Takes w.tokens s') :
    Reads (condition stops) s w.tree s' := by
  have hne : w.tokens ≠ [] := by
    cases w <;> simp [WrittenCondition.tokens, WrittenSignature.tokens]
  rw [WrittenCondition.tree, ← h.rangeTo_of_ne_nil hne]
  refine .andThen (reads_ranged (a := w.form) ?_).run (reads_pure h.clean_end)
  -- Behind a name a bracket or a dot makes a call of it, and a comparison has neither there.
  rcases w with ⟨_ | negation, signature⟩ | ⟨left, operator, right⟩
  · have h : s.Takes signature.tokens s' := h
    obtain ⟨first, second, rest, htokens, hfirst, hsecond⟩ := signature.exists_cons
    obtain ⟨s₁, hname, hrest⟩ := takes_cons_iff.1 (htokens ▸ h)
    have hat : s.kindAt 0 = .identifier := hname.kindAt_zero.trans hfirst
    have hnext : s.kindAt 1 = second.kind := hname.passes.kindAt_one.trans hrest.kindAt_zero
    refine .andThen (eat_of_ne (by simp [hat])) (.andThen (isAt_apply _ _) ?_)
    refine .andThen (kindAt_apply _ _) ?_
    rw [if_pos (by simpa [hat, hnext] using hsecond)]
    exact .andThen (reads_signature signature h).run (reads_pure h.clean_end)
  · obtain ⟨s₁, hnegation, h⟩ := takes_cons_iff.1 h
    refine .andThen (eat_of_takes hnegation) ?_
    exact .andThen (reads_signature signature h).run (reads_pure h.clean_end)
  · obtain ⟨first, rest, htokens, hkind, halone⟩ := left.exists_cons
    have h : s.Takes (left.tokens ++ operator.token :: right.tokens) s' := h
    obtain ⟨s₁, hname, hrest⟩ := takes_cons_iff.1 (htokens ▸ h)
    have hat : s.kindAt 0 = first.kind := hname.kindAt_zero
    refine .andThen (eat_of_ne ?_) (.andThen (isAt_apply _ _) (.andThen (kindAt_apply _ _) ?_))
    · rw [hat]
      intro hnot
      rw [hnot] at hkind
      exact absurd hkind (by decide)
    rw [if_neg]
    · exact reads_comparison left operator right h
    · simp only [hat, Bool.and_eq_true, beq_iff_eq, not_and]
      intro hidentifier hnext
      -- The left side is that name alone, so the sign of the comparison would be the bracket or the
      -- dot.
      rw [halone hidentifier] at hrest
      rw [hname.passes.kindAt_one.trans hrest.kindAt_zero] at hnext
      have hreads := operator.reads
      simp only [List.contains_eq_mem, List.mem_cons, List.not_mem_nil, or_false,
        decide_eq_true_eq] at hnext
      rcases hnext with hnext | hnext <;> rw [hnext] at hreads <;> cases hreads

/-- Conditions that were read in silence are written with AND between them. -/
theorem Reads.conditionBlock {a : ConditionBlock} (hend : s'.ending.kind = .endOfFile)
    (h : Reads (conditionBlock stops) s a s') :
    ∃ written : List WrittenConjunct,
      a = ⟨written.map (·.tree), rangeOf (written.flatMap (·.tokens)) s'.peek⟩
        ∧ s.Takes (written.flatMap (·.tokens)) s' := by
  obtain ⟨conditions, hread, rfl⟩ := h.of_ranged (g := ConditionBlock.mk) fun _ _ => rfl
  obtain ⟨written, rfl, htakes, -⟩ := hread.many WrittenConjunct.tree WrittenConjunct.tokens
    (fun _ => True) (.bind advances_eat fun _ => .ite (.bind advances_condition fun _ => .pure) .pure)
    hend (fun _ _ => trivial) fun hend h _ => by
      obtain ⟨token, s₂, hand, h⟩ := h.bind
      split at h
      next hsome =>
        obtain ⟨condition, s₃, hcondition, h⟩ := h.bind
        obtain ⟨rfl, rfl⟩ := h.of_pure
        obtain ⟨condition, rfl, hsecond⟩ := Reads.condition hend ⟨hcondition, h.clean⟩
        obtain ⟨and, rfl, hfirst⟩ | ⟨rfl, -⟩ := Reads.eat (by decide) ⟨hand, hsecond.clean⟩
        · exact .inr ⟨⟨and, condition⟩, rfl, nofun, hfirst.cons hsecond⟩
        · cases hsome
      next hnone =>
        obtain ⟨rfl, rfl⟩ := h.of_pure
        obtain ⟨and, rfl, -⟩ | ⟨-, rfl, -⟩ := Reads.eat (by decide) ⟨hand, h.clean⟩
        · exact absurd rfl hnone
        · exact .inl ⟨rfl, rfl⟩
  exact ⟨written, by rw [htakes.rangeTo], htakes⟩

/-- Conditions are read up to the first one that has no AND behind it. -/
theorem reads_conditionBlock (written : List WrittenConjunct) (hnext : s'.kindAt 0 ≠ .and)
    (h : s.Takes (written.flatMap (·.tokens)) s') :
    Reads (conditionBlock stops) s
      ⟨written.map (·.tree), rangeOf (written.flatMap (·.tokens)) s'.peek⟩ s' := by
  rw [← h.rangeTo]
  refine .andThen (reads_ranged (a := written.map (·.tree)) ?_).run (reads_pure h.clean_end)
  refine reads_many WrittenConjunct.tree WrittenConjunct.tokens (fun _ => True) written h trivial
    (.andThen (eat_of_ne hnext) (reads_pure h.clean_end)) (fun _ => List.cons_ne_nil _ _)
    (fun _ => trivial) ?_
  intro w s s₁ htakes _
  obtain ⟨s₂, hand, hcondition⟩ := takes_cons_iff.1 htakes
  refine .andThen (eat_of_takes hand) ?_
  exact .andThen (reads_condition w.condition hcondition).run (reads_pure hcondition.clean_end)

/-! ## Actions

An action has a semicolon, so that what stands behind it does not matter. A block of them ends where
no action starts. -/

/-- An action that was read in silence has its semicolon. -/
theorem Reads.action {a : Action} (hend : s'.ending.kind = .endOfFile)
    (h : Reads (action stops stop) s a s') :
    ∃ w : WrittenAction, a = w.tree ∧ s.Takes w.tokens s' := by
  obtain ⟨form, hread, rfl⟩ := h.of_ranged (g := Action.mk) fun _ _ => rfl
  obtain ⟨w, rfl, htakes⟩ : ∃ w : WrittenAction, form = w.form ∧ s.Takes w.tokens s' := by
    -- The word for the end of the goal is looked for first. Otherwise it is a call.
    obtain ⟨word, s₁, hword, h⟩ := hread.bind
    split at h
    next hsome =>
      obtain ⟨_, s₂, hsemicolon, h⟩ := h.bind
      obtain ⟨rfl, rfl⟩ := h.of_pure
      obtain ⟨token, hsemicolon⟩ := Reads.discard ⟨hsemicolon, h.clean⟩
      obtain ⟨semicolon, rfl, hsecond⟩ := hsemicolon.expect (by decide)
      obtain ⟨word, rfl, hfirst⟩ | ⟨rfl, -⟩ := Reads.eat (by decide) ⟨hword, hsecond.clean⟩
      · exact ⟨.goalCompleted word semicolon, rfl, hfirst.cons hsecond⟩
      · cases hsome
    next hnone =>
      obtain ⟨negation, s₂, hnegation, h⟩ := h.bind
      obtain ⟨signature, s₃, hsignature, h⟩ := h.bind
      obtain ⟨semicolon, s₄, hsemicolon, h⟩ := h.bind
      -- A missing semicolon is made up for, and no step of that takes reports back.
      have hrest : Advances (do
          if semicolon.isNone then
            if !(← isAtAny actionStart) then
              skipUntil stops (.semicolon :: stop)
              Functor.discard (Parse.eat .semicolon)
          return Action.Form.call signature negation.isSome) := by
        refine .ite (.bind advances_isAtAny fun _ => .ite ?_ .pure) .pure
        exact .bind advances_skipUntil fun _ => .bind advances_eat.discard fun _ => .pure
      obtain ⟨semicolon, rfl, hthird⟩ := Reads.expect (by decide) ⟨hsemicolon, hrest.clean h⟩
      obtain ⟨rfl, rfl⟩ := h.of_pure
      obtain ⟨signature, rfl, hsecond⟩ := Reads.signature (hthird.ends hend) ⟨hsignature, hthird.clean⟩
      have hnegation : Reads _ s₁ negation s₂ := ⟨hnegation, hsecond.clean⟩
      obtain ⟨word, rfl, -⟩ | ⟨-, rfl, -⟩ :=
        Reads.eat (by decide) ⟨hword, advances_eat.clean hnegation⟩
      · exact absurd rfl hnone
      obtain ⟨negation, rfl, hfirst⟩ | ⟨rfl, rfl, -⟩ := hnegation.eat (by decide)
      · exact ⟨.call (some negation) signature semicolon, rfl, (hfirst.cons hsecond).trans hthird⟩
      · exact ⟨.call none signature semicolon, rfl, hsecond.trans hthird⟩
  exact ⟨w, by rw [htakes.rangeTo_of_ne_nil w.tokens_ne_nil]; rfl, htakes⟩

/-- A written action is read, whatever comes behind its semicolon. -/
theorem reads_action (w : WrittenAction) (h : s.Takes w.tokens s') :
    Reads (action stops stop) s w.tree s' := by
  rw [WrittenAction.tree, ← h.rangeTo_of_ne_nil w.tokens_ne_nil]
  refine .andThen (reads_ranged (a := w.form) ?_).run (reads_pure h.clean_end)
  -- Behind NOT, or where it could stand, the call is read up to its semicolon.
  have called {negation : Option Token} {signature : WrittenSignature} {semicolon : TokenOf .semicolon}
      {s : Cursor} (h : s.Takes (signature.tokens ++ [semicolon.1]) s') :
      Reads (do
        let signature ← Syntax.signature (.semicolon :: stop ++ stops)
        if (← Parse.expect .semicolon "';'").isNone then
          if !(← isAtAny actionStart) then
            skipUntil stops (.semicolon :: stop)
            Functor.discard (Parse.eat .semicolon)
        return Action.Form.call signature negation.isSome) s (.call signature.tree negation.isSome) s' := by
    obtain ⟨s₁, hsignature, hsemicolon⟩ := takes_append_iff.1 h
    refine .andThen (reads_signature signature hsignature).run ?_
    exact .andThen (expect_of_takes hsemicolon) (reads_pure hsemicolon.clean_end)
  -- The three ways in which an action may be written.
  rcases w with ⟨word, semicolon⟩ | ⟨_ | negation, signature, semicolon⟩
  · obtain ⟨s₁, hword, hsemicolon⟩ := takes_cons_iff.1 h
    refine .andThen (eat_of_takes hword) ?_
    exact .andThen (discard_run (expect_of_takes hsemicolon)) (reads_pure hsemicolon.clean_end)
  · have h : s.Takes (signature.tokens ++ [semicolon.1]) s' := h
    have hat : s.kindAt 0 = .identifier := by
      obtain ⟨first, second, rest, htokens, hfirst, -⟩ := signature.exists_cons
      rw [← hfirst]
      rw [htokens] at h
      exact h.kindAt_zero
    refine .andThen (eat_of_ne (by simp [hat])) (.andThen (eat_of_ne (by simp [hat])) ?_)
    exact called h
  · obtain ⟨s₁, hnegation, h⟩ := takes_cons_iff.1 h
    refine .andThen (eat_of_ne (by simp [hnegation.kindAt_zero, negation.2])) ?_
    exact .andThen (eat_of_takes hnegation) (called h)

/-- Actions that were read in silence are written one behind the other. -/
theorem Reads.actionBlock {a : ActionBlock} (hend : s'.ending.kind = .endOfFile)
    (h : Reads (actionBlock stops stop) s a s') :
    ∃ written : List WrittenAction, a = WrittenAction.block written s'.peek
      ∧ s.Takes (written.flatMap (·.tokens)) s' := by
  obtain ⟨actions, hread, rfl⟩ := h.of_ranged (g := ActionBlock.mk) fun _ _ => rfl
  obtain ⟨written, rfl, htakes, -⟩ := hread.many WrittenAction.tree WrittenAction.tokens
    (fun _ => True) (.bind advances_isAtAny fun _ => .bind advances_isAtStop fun _ => .ite .pure <|
      .bind advances_isAtAny fun _ => .ite (.bind advances_action fun _ => .pure) advances_passOver)
    hend (fun _ _ => trivial) fun hend h _ => by
      have h := (h.after (isAtAny_apply _ _)).after (isAtStop_apply _ _)
      split at h
      · obtain ⟨rfl, rfl⟩ := h.of_pure
        exact .inl ⟨rfl, rfl⟩
      have h := h.after (isAtAny_apply _ _)
      split at h
      · obtain ⟨action, s₂, haction, h⟩ := h.bind
        obtain ⟨rfl, rfl⟩ := h.of_pure
        obtain ⟨w, rfl, htakes⟩ := Reads.action hend ⟨haction, h.clean⟩
        exact .inr ⟨w, rfl, w.tokens_ne_nil, htakes⟩
      · exact absurd h not_reads_passOver
  exact ⟨written, by rw [htakes.rangeTo]; rfl, htakes⟩

/-- Where the actions of a rule or a section end: at the next rule or section. -/
def EndsActions (s : Cursor) : Prop := s.kindAt 0 ∈ ruleStart ++ sectionKeywords

/-- Actions in front of a rule or a section are read, all of them. -/
theorem reads_actionBlock (written : List WrittenAction) (hends : EndsActions s')
    (h : s.Takes (written.flatMap (·.tokens)) s') :
    Reads (actionBlock sectionKeywords ruleStart) s (WrittenAction.block written s'.peek) s' := by
  rw [WrittenAction.block, ← h.rangeTo]
  refine .andThen (reads_ranged (a := written.map (·.tree)) ?_).run (reads_pure h.clean_end)
  -- Where they end nothing is taken, and in front of an action one is taken.
  refine reads_many WrittenAction.tree WrittenAction.tokens (fun _ => True) written h trivial ?_
    WrittenAction.tokens_ne_nil (fun _ => trivial) ?_
  · refine .andThen (isAtAny_apply _ _) (.andThen (isAtStop_apply _ _) ?_)
    have hends : s'.kindAt 0 ∈ ruleStart ++ sectionKeywords := hends
    rw [if_pos]
    · exact reads_pure h.clean_end
    · rcases List.mem_append.1 hends with hends | hends <;> simp [hends]
  · intro w s s₁ htakes _
    have hat : s.kindAt 0 ∈ actionStart := by
      obtain ⟨first, rest, htokens, hkind⟩ := w.exists_cons
      have htakes : s.Takes (first :: rest) s₁ := htokens ▸ htakes
      exact htakes.kindAt_zero ▸ hkind
    refine .andThen (isAtAny_apply _ _) (.andThen (isAtStop_apply _ _) ?_)
    rw [if_neg]
    · refine .andThen (isAtAny_apply _ _) ?_
      rw [if_pos (by simpa using hat)]
      exact .andThen (reads_action w htakes).run (reads_pure htakes.clean_end)
    · simp only [actionStart, List.mem_cons, List.not_mem_nil, or_false] at hat
      rcases hat with hat | hat | hat <;> rw [hat] <;> decide

/-! ## Rules

A rule ends in front of the next rule or of a section, as no action starts with such a keyword. -/

/-- The kind of a rule tells its keyword. -/
theorem opener_ruleKind {kind : TokenKind} (h : kind ∈ ruleStart) : (ruleKind kind).opener = kind := by
  simp only [ruleStart, List.mem_cons, List.not_mem_nil, or_false] at h
  rcases h with rfl | rfl | rfl <;> rfl

/-- The keyword of a rule tells its kind. -/
theorem ruleKind_opener (kind : RuleKind) : ruleKind kind.opener = kind := by cases kind <;> rfl

/-- A rule that was read in silence has its mark and at least one action. -/
theorem Reads.rule {a : Rule} (hat : s.kindAt 0 ∈ ruleStart) (hend : s'.ending.kind = .endOfFile)
    (h : Reads (rule stops) s a s') : ∃ w : WrittenRule, a = w.tree ∧ s.Takes w.tokens s' := by
  obtain ⟨build, hread, rfl⟩ := h.of_ranged (g := fun build range => build range) fun _ _ => rfl
  -- Forth through the steps, and back with the silence.
  obtain ⟨keyword, s₁, hkeyword, h⟩ := hread.bind
  obtain ⟨head, s₂, hhead, h⟩ := h.bind
  obtain ⟨conditions, s₃, hconditions, h⟩ := h.bind
  obtain ⟨mark, s₄, hmark, h⟩ := h.bind
  -- What is done without the mark moves ahead as well, so there were no reports before it.
  have hthen : s₄.reports = [] := by
    refine Advances.clean ?_ h
    refine .ite (.bind advances_isAt fun _ => .bind (advances_kindAt 1) fun _ => .ite ?_ ?_) ?_
    · exact .bind advances_skipUntil fun _ => .bind advances_eat.discard fun _ => advances_nonemptyBlock
    · exact advances_nonemptyBlock
    · exact advances_nonemptyBlock
  obtain ⟨mark, rfl, hfourth⟩ := Reads.expect (by decide) ⟨hmark, hthen⟩
  obtain ⟨actions, s₅, hactions, h⟩ := h.bind
  split at h
  · exact absurd h (not_reads_report .pure)
  next hnonempty =>
  -- A rule without an action would have been reported.
  obtain ⟨rfl, rfl⟩ := h.of_pure
  obtain ⟨actions, rfl, hfifth⟩ := Reads.actionBlock hend ⟨hactions, h.clean⟩
  obtain ⟨action, actions, rfl⟩ := List.exists_cons_of_ne_nil (show actions ≠ [] by
    rintro rfl
    exact hnonempty rfl)
  have hends := hfourth.ends (hfifth.ends hend)
  obtain ⟨conditions, rfl, hthird⟩ := Reads.conditionBlock hends ⟨hconditions, hfourth.clean⟩
  obtain ⟨head, rfl, hsecond⟩ := Reads.signature (hthird.ends hends) ⟨hhead, hthird.clean⟩
  have hne : s.kindAt 0 ≠ .endOfFile := by
    intro heq
    rw [heq] at hat
    exact absurd hat (by decide)
  obtain ⟨rfl, hfirst⟩ := Reads.take hne ⟨hkeyword, hsecond.clean⟩
  have hkind : s.peek.kind ∈ ruleStart := by rwa [← hfirst.kindAt_zero]
  let w : WrittenRule :=
    ⟨ruleKind s.peek.kind, ⟨s.peek, (opener_ruleKind hkind).symm⟩, head, conditions, mark, action,
      actions⟩
  have htakes : s.Takes w.tokens s' := by
    simpa [w, WrittenRule.tokens] using hfirst.cons (hsecond.trans (hthird.trans (hfourth.cons hfifth)))
  refine ⟨w, ?_, htakes⟩
  rw [htakes.rangeTo_of_ne_nil (by simp [w, WrittenRule.tokens]), hfourth.peek,
    WrittenAction.block, rangeOf_of_ne_nil _ s'.peek {}]
  · rfl
  · simp [WrittenAction.tokens_ne_nil]

/-- A rule starts with its keyword. -/
theorem kindAt_writtenRule {w : WrittenRule} (h : s.Takes w.tokens s') : s.kindAt 0 ∈ ruleStart := by
  have h : s.Takes (w.keyword.1 :: _) s' := h
  rw [h.kindAt_zero, w.keyword.2]
  cases w.kind <;> decide

/-- A written rule is read in front of another rule or a section. -/
theorem reads_rule (w : WrittenRule) (hends : EndsActions s') (h : s.Takes w.tokens s') :
    Reads (rule sectionKeywords) s w.tree s' := by
  have hrange := h.rangeTo_of_ne_nil (by simp [WrittenRule.tokens])
  have h : s.Takes (w.keyword.1 :: (w.head.tokens ++ (w.conditions.flatMap (·.tokens)
      ++ (w.mark.1 :: (w.action :: w.actions).flatMap (·.tokens))))) s' := by
    simpa [WrittenRule.tokens] using h
  obtain ⟨s₁, hkeyword, h⟩ := takes_cons_iff.1 h
  obtain ⟨s₂, hhead, h⟩ := takes_append_iff.1 h
  obtain ⟨s₃, hconditions, h⟩ := takes_append_iff.1 h
  obtain ⟨s₄, hmark, hactions⟩ := takes_cons_iff.1 h
  have hpeek : s₃.peek = w.mark.1 := hmark.peek
  have hnext : s₃.kindAt 0 ≠ .and := by
    rw [hmark.kindAt_zero, w.mark.2]
    decide
  show Reads _ s { w.tree with range := rangeOf w.tokens } s'
  rw [← hrange]
  refine .andThen (reads_ranged (a := fun range => { w.tree with range }) ?_).run
    (reads_pure hactions.clean_end)
  refine .andThen (take_of_takes hkeyword) (.andThen (reads_signature w.head hhead).run ?_)
  refine .andThen (reads_conditionBlock w.conditions hnext hconditions).run ?_
  refine .andThen (expect_of_takes hmark) ?_
  refine .andThen (reads_actionBlock (w.action :: w.actions) hends hactions).run ?_
  rw [if_neg (by simp [WrittenAction.block])]
  -- The range of the actions is that of their tokens and needs no neighbour, as there is an action.
  have hblock : WrittenAction.block (w.action :: w.actions) s'.peek
      = WrittenAction.block (w.action :: w.actions) := by
    rw [WrittenAction.block, rangeOf_of_ne_nil _ s'.peek {}, WrittenAction.block]
    simp [WrittenAction.tokens_ne_nil]
  rw [w.keyword.2, ruleKind_opener, hmark.peek, hblock]
  exact reads_pure hactions.clean_end

/-- Rules that were read in silence are written one behind the other. -/
theorem Reads.rules {found : List Rule} (hend : s'.ending.kind = .endOfFile)
    (h : Reads (rules stops) s found s') :
    ∃ written : List WrittenRule, found = written.map (·.tree)
      ∧ s.Takes (written.flatMap (·.tokens)) s' := by
  obtain ⟨written, rfl, htakes, -⟩ := h.many WrittenRule.tree WrittenRule.tokens (fun _ => True)
    (.bind advances_isAtStop fun _ => .ite .pure <|
      .bind advances_isAtAny fun _ => .ite (.bind advances_rule fun _ => .pure) advances_passOver)
    hend (fun _ _ => trivial) fun hend h _ => by
      have h := h.after (isAtStop_apply _ _)
      split at h
      · obtain ⟨rfl, rfl⟩ := h.of_pure
        exact .inl ⟨rfl, rfl⟩
      have h := h.after (isAtAny_apply _ _)
      split at h
      next hat =>
        obtain ⟨rule, s₂, hrule, h⟩ := h.bind
        obtain ⟨rfl, rfl⟩ := h.of_pure
        obtain ⟨w, rfl, htakes⟩ := Reads.rule (by simpa using hat) hend ⟨hrule, h.clean⟩
        exact .inr ⟨w, rfl, List.cons_ne_nil _ _, htakes⟩
      · exact absurd h not_reads_passOver
  exact ⟨written, rfl, htakes⟩

/-- Rules in front of a section are read, all of them. -/
theorem reads_rules (written : List WrittenRule) (hstop : s'.kindAt 0 ∈ sectionKeywords)
    (h : s.Takes (written.flatMap (·.tokens)) s') :
    Reads (rules sectionKeywords) s (written.map (·.tree)) s' := by
  refine reads_many WrittenRule.tree WrittenRule.tokens EndsActions written h
    (List.mem_append_right _ hstop) ?_ (fun _ => List.cons_ne_nil _ _)
    (fun h => List.mem_append_left _ (kindAt_writtenRule h)) ?_
  · refine .andThen (isAtStop_apply _ _) ?_
    rw [if_pos (by simp [hstop])]
    exact reads_pure h.clean_end
  · intro w s s₁ htakes hends
    have hat := kindAt_writtenRule htakes
    refine .andThen (isAtStop_apply _ _) ?_
    rw [if_neg]
    · refine .andThen (isAtAny_apply _ _) ?_
      rw [if_pos (by simpa using hat)]
      exact .andThen (reads_rule w hends htakes).run (reads_pure htakes.clean_end)
    · simp only [ruleStart, List.mem_cons, List.not_mem_nil, or_false] at hat
      rcases hat with hat | hat | hat <;> rw [hat] <;> decide

/-! ## Options

An option may lack a value without a report, namely if the integer that stands there is too large.
This is what makes silent options differ from written ones. -/

/-- An option that was read in silence has a value that is accepted at its place. -/
theorem Reads.goalOption {placement : OptionPlacement} {a : GoalOption} (hat : s.kindAt 0 = .identifier)
    (hend : s'.ending.kind = .endOfFile) (h : Reads (goalOption placement) s a s') :
    ∃ w : SilentOption placement, a = w.tree ∧ s.Takes w.tokens s' := by
  obtain ⟨⟨⟨name, value⟩, range⟩, s₁, hread, h⟩ := h.bind
  dsimp only at h
  cases hproblem : optionProblem name value placement with
  | some problem =>
    rw [hproblem] at h
    exact absurd h (not_reads_report .pure)
  | none =>
    rw [hproblem] at h
    obtain ⟨rfl, rfl⟩ := h.of_pure
    obtain ⟨hread, rfl⟩ := Reads.ranged ⟨hread, h.clean⟩
    obtain ⟨first, s₁, hfirst, h⟩ := hread.bind
    have h := h.after (peek_apply s₁)
    cases hfound : optionValue? s₁.peek with
    | none =>
      rw [hfound] at h
      exact absurd h (not_reads_missing (.bind .pure fun _ => .bind advances_eat.discard fun _ => .pure))
    | some found =>
      rw [hfound] at h
      obtain ⟨_, s₂, htake, h⟩ := h.bind
      have h := h.after (pure_apply _ _)
      obtain ⟨_, s₃, hsemicolon, h⟩ := h.bind
      obtain ⟨hparts, rfl⟩ := h.of_pure
      obtain ⟨rfl, rfl⟩ := Prod.mk.inj hparts
      obtain ⟨semicolon, hsemicolon⟩ := Reads.discard ⟨hsemicolon, h.clean⟩
      have htake : Reads _ s₁ _ s₂ := ⟨htake, advances_eat.clean hsemicolon⟩
      have hends := advances_take.discard.ends htake (advances_eat.ends hsemicolon hend)
      -- The end of the text is no value.
      have hne : s₁.kindAt 0 ≠ .endOfFile := by
        intro heq
        rw [← kind_peek hends] at heq
        simp [optionValue?, heq] at hfound
      obtain ⟨token, htake⟩ := htake.discard
      obtain ⟨rfl, hsecond⟩ := htake.take hne
      obtain ⟨rfl, hfirst⟩ := Reads.take (by simp [hat]) ⟨hfirst, hsecond.clean⟩
      have hname : s.peek.kind = .identifier := by rw [← hfirst.kindAt_zero, hat]
      -- With and without a semicolon, the tokens taken are those of a written option.
      obtain ⟨w, htree, htokens, htakes⟩ : ∃ w : SilentOption placement,
          (∀ range, GoalOption.mk s.peek.value value placement range = { w.tree with range })
            ∧ w.tokens ≠ [] ∧ s.Takes w.tokens s' := by
        obtain ⟨semicolon, rfl, hthird⟩ | ⟨rfl, rfl, -⟩ := hsemicolon.eat (by decide)
        · exact ⟨⟨⟨s.peek, hname⟩, s₁.peek, value, hfound, hproblem, some semicolon⟩, fun _ => rfl,
            List.cons_ne_nil _ _, hfirst.cons (hsecond.cons hthird)⟩
        · exact ⟨⟨⟨s.peek, hname⟩, s₁.peek, value, hfound, hproblem, none⟩, fun _ => rfl,
            List.cons_ne_nil _ _, hfirst.cons hsecond⟩
      exact ⟨w, by rw [htree, htakes.rangeTo_of_ne_nil htokens]; rfl, htakes⟩

/-- A written option is read unless a semicolon behind it would be taken along. -/
theorem reads_goalOption {placement : OptionPlacement} (w : SilentOption placement)
    (hnext : s'.kindAt 0 ≠ .semicolon) (h : s.Takes w.tokens s') :
    Reads (goalOption placement) s w.tree s' := by
  have hrange := h.rangeTo_of_ne_nil (List.cons_ne_nil _ _)
  obtain ⟨s₁, hname, h⟩ := takes_cons_iff.1 h
  obtain ⟨s₂, htoken, hsemicolon⟩ := takes_cons_iff.1 h
  refine .andThen (reads_ranged (?read : Reads _ s (w.name.1.value, w.value) s')).run ?_
  case read =>
    refine .andThen (take_of_takes hname) (.andThen (peek_apply s₁) ?_)
    rw [htoken.peek, w.reads]
    refine .andThen (discard_run (take_of_takes htoken)) (.andThen (pure_apply _ _) ?_)
    -- The semicolon is the last token if there is one.
    cases hw : w.semicolon with
    | none =>
      rw [hw] at hsemicolon
      obtain ⟨rfl, -⟩ := takes_nil_iff.1 hsemicolon
      exact .andThen (discard_run (eat_of_ne hnext)) (reads_pure h.clean_end)
    | some semicolon =>
      rw [hw] at hsemicolon
      exact .andThen (discard_run (eat_of_takes hsemicolon)) (reads_pure h.clean_end)
  dsimp only
  rw [w.accepted, hrange]
  exact reads_pure h.clean_end

/-- The options before the sections end where a token is no name. -/
theorem Reads.headerOptions {found : List GoalOption} (hend : s'.ending.kind = .endOfFile)
    (h : Reads headerOptions s found s') :
    ∃ written : List (SilentOption .header), found = written.map (·.tree)
      ∧ s.Takes (written.flatMap (·.tokens)) s' := by
  obtain ⟨written, rfl, htakes, -⟩ := h.many SilentOption.tree SilentOption.tokens
    (fun _ => True) (.bind advances_isAt fun _ =>
      .ite (.bind (advances_goalOption _) fun _ => .pure) .pure)
    hend (fun _ _ => trivial) fun hend h _ => by
      have h := h.after (isAt_apply _ _)
      split at h
      next hat =>
        obtain ⟨o, s₂, hoption, h⟩ := h.bind
        obtain ⟨rfl, rfl⟩ := h.of_pure
        obtain ⟨w, rfl, htakes⟩ := Reads.goalOption (by simpa using hat) hend ⟨hoption, h.clean⟩
        exact .inr ⟨w, rfl, List.cons_ne_nil _ _, htakes⟩
      next =>
        obtain ⟨rfl, rfl⟩ := h.of_pure
        exact .inl ⟨rfl, rfl⟩
  exact ⟨written, rfl, htakes⟩

/-- An option starts with a name. -/
theorem kindAt_silentOption {placement : OptionPlacement} {w : SilentOption placement}
    (h : s.Takes w.tokens s') : s.kindAt 0 = .identifier := by
  have h : s.Takes (w.name.1 :: _) s' := h
  rw [h.kindAt_zero, w.name.2]

/-- The options in front of the first section are read, all of them. -/
theorem reads_silentHeader (written : List (SilentOption .header))
    (hsection : s'.kindAt 0 = .initSection) (h : s.Takes (written.flatMap (·.tokens)) s') :
    Reads headerOptions s (written.map (·.tree)) s' := by
  refine reads_many SilentOption.tree SilentOption.tokens (fun s => s.kindAt 0 ≠ .semicolon)
    written h (by simp [hsection]) ?_ (fun _ => List.cons_ne_nil _ _)
    (fun h => by simp [kindAt_silentOption h]) ?_
  · refine .andThen (isAt_apply _ _) ?_
    rw [if_neg (by simp [hsection])]
    exact reads_pure h.clean_end
  · intro w s s₁ htakes hnext
    refine .andThen (isAt_apply _ _) ?_
    rw [if_pos (by simp [kindAt_silentOption htakes])]
    exact .andThen (reads_goalOption w hnext htakes).run (reads_pure htakes.clean_end)

/-- The options behind the sections end with the text. -/
theorem Reads.footerOptions {found : List GoalOption} (hend : s'.ending.kind = .endOfFile)
    (hahead : ∀ token ∈ s'.ahead, token.kind ≠ .endOfFile)
    (h : Reads (footerOptions stops) s found s') :
    ∃ written : List (SilentOption .footer), found = written.map (·.tree)
      ∧ s.Takes (written.flatMap (·.tokens)) s' ∧ s'.ahead = [] := by
  obtain ⟨written, rfl, htakes, hstop⟩ := h.many SilentOption.tree SilentOption.tokens
    (fun _ => True) (.bind advances_isAt fun _ =>
      .ite (.bind (advances_goalOption _) fun _ => .pure) <|
        .bind advances_isAtEnd fun _ => .ite .pure advances_passOver)
    hend (fun _ _ => trivial) fun hend h _ => by
      have h := h.after (isAt_apply _ _)
      split at h
      next hat =>
        obtain ⟨o, s₂, hoption, h⟩ := h.bind
        obtain ⟨rfl, rfl⟩ := h.of_pure
        obtain ⟨w, rfl, htakes⟩ := Reads.goalOption (by simpa using hat) hend ⟨hoption, h.clean⟩
        exact .inr ⟨w, rfl, List.cons_ne_nil _ _, htakes⟩
      have h := h.after (isAt_apply _ _)
      split at h
      · obtain ⟨rfl, rfl⟩ := h.of_pure
        exact .inl ⟨rfl, rfl⟩
      · exact absurd h not_reads_passOver
  refine ⟨written, rfl, htakes, ?_⟩
  -- The options stop where nothing is left, as anything else would be reported.
  obtain hnone | h := hstop
  · exact hnone
  have h := h.after (isAt_apply _ _)
  split at h
  · obtain ⟨o, s₂, hoption, h⟩ := h.bind
    obtain ⟨hnone, -⟩ := h.of_pure
    cases hnone
  have h := h.after (isAt_apply _ _)
  split at h
  next hat =>
    rw [beq_iff_eq] at hat
    cases hs : s'.ahead with
    | nil => rfl
    | cons token rest =>
      refine absurd ?_ (hahead token (by simp [hs]))
      rw [← hat]
      simp [Cursor.kindAt, hs]
  · exact absurd h not_reads_passOver

/-- Options at the end of a text are read, all of them. -/
theorem reads_silentFooter (written : List (SilentOption .footer)) (hahead : s'.ahead = [])
    (h : s.Takes (written.flatMap (·.tokens)) s') :
    Reads (footerOptions stops) s (written.map (·.tree)) s' := by
  have hat : s'.kindAt 0 = .endOfFile := by simp [Cursor.kindAt, hahead]
  refine reads_many SilentOption.tree SilentOption.tokens (fun s => s.kindAt 0 ≠ .semicolon)
    written h (by simp [hat]) ?_ (fun _ => List.cons_ne_nil _ _)
    (fun h => by simp [kindAt_silentOption h]) ?_
  · refine .andThen (isAt_apply _ _) ?_
    rw [if_neg (by simp [hat])]
    refine .andThen (isAt_apply _ _) ?_
    rw [if_pos (by simp [hat])]
    exact reads_pure h.clean_end
  · intro w s s₁ htakes hnext
    refine .andThen (isAt_apply _ _) ?_
    rw [if_pos (by simp [kindAt_silentOption htakes])]
    exact .andThen (reads_goalOption w hnext htakes).run (reads_pure htakes.clean_end)

/-! Options that are written by the grammar are read as well. -/

/-- Options in front of the sections are read as the grammar writes them, since these are silent
options. -/
theorem reads_headerOptions (written : List (WrittenOption .header))
    (hsection : s'.kindAt 0 = .initSection) (h : s.Takes (written.flatMap (·.tokens)) s') :
    Reads headerOptions s (written.map (·.tree)) s' := by
  have hread := reads_silentHeader (written.map (·.silent)) hsection
    (by simpa [List.flatMap_map] using h)
  simpa [Function.comp_def] using hread

/-- Options behind the sections are read as the grammar writes them. -/
theorem reads_footerOptions (written : List (WrittenOption .footer)) (hahead : s'.ahead = [])
    (h : s.Takes (written.flatMap (·.tokens)) s') :
    Reads (footerOptions stops) s (written.map (·.tree)) s' := by
  have hread : Reads (footerOptions stops) s _ s' :=
    reads_silentFooter (written.map (·.silent)) hahead (by simpa [List.flatMap_map] using h)
  simpa [Function.comp_def] using hread

/-! ## Goals

The sections of a goal, one behind the other. A goal that was read without a report has all five
keywords, and its tokens are all that the text has. -/

/-- A goal that was read in silence is a silent goal, and nothing of the text is left. -/
theorem Reads.goal {a : Goal} (hend : s'.ending.kind = .endOfFile)
    (hahead : ∀ token ∈ s'.ahead, token.kind ≠ .endOfFile) (h : Reads goal s a s') :
    ∃ w : SilentGoal, a = w.tree ∧ s.Takes w.tokens s' ∧ s'.ahead = [] := by
  obtain ⟨build, hread, rfl⟩ := h.of_ranged (g := fun build range => build range) fun _ _ => rfl
  -- The nine parts in their order.
  obtain ⟨header, s₁, hheader, h⟩ := hread.bind
  obtain ⟨_, s₂, hinitSection, h⟩ := h.bind
  obtain ⟨init, s₃, hinit, h⟩ := h.bind
  obtain ⟨_, s₄, hkbSection, h⟩ := h.bind
  obtain ⟨rules, s₅, hrules, h⟩ := h.bind
  obtain ⟨_, s₆, hexitSection, h⟩ := h.bind
  obtain ⟨exit, s₇, hexit, h⟩ := h.bind
  obtain ⟨_, s₈, hendSection, h⟩ := h.bind
  obtain ⟨footer, s₉, hfooter, h⟩ := h.bind
  obtain ⟨rfl, rfl⟩ := h.of_pure
  -- Each part was read without a report, since those behind it were.
  obtain ⟨footer, rfl, hninth, hnone⟩ := Reads.footerOptions hend hahead ⟨hfooter, h.clean⟩
  obtain ⟨_, hread⟩ := Reads.discard ⟨hendSection, hninth.clean⟩
  obtain ⟨endSection, -, heighth⟩ := hread.expect (by decide)
  have hend := heighth.ends (hninth.ends hend)
  obtain ⟨exit, rfl, hseventh⟩ := Reads.actionBlock hend ⟨hexit, heighth.clean⟩
  obtain ⟨_, hread⟩ := Reads.discard ⟨hexitSection, hseventh.clean⟩
  obtain ⟨exitSection, -, hsixth⟩ := hread.expect (by decide)
  have hend := hsixth.ends (hseventh.ends hend)
  obtain ⟨rules, rfl, hfifth⟩ := Reads.rules hend ⟨hrules, hsixth.clean⟩
  obtain ⟨_, hread⟩ := Reads.discard ⟨hkbSection, hfifth.clean⟩
  obtain ⟨kbSection, -, hfourth⟩ := hread.expect (by decide)
  have hend := hfourth.ends (hfifth.ends hend)
  obtain ⟨init, rfl, hthird⟩ := Reads.actionBlock hend ⟨hinit, hfourth.clean⟩
  obtain ⟨_, hread⟩ := Reads.discard ⟨hinitSection, hthird.clean⟩
  obtain ⟨initSection, -, hsecond⟩ := hread.expect (by decide)
  have hend := hsecond.ends (hthird.ends hend)
  obtain ⟨header, rfl, hfirst⟩ := Reads.headerOptions hend ⟨hheader, hsecond.clean⟩
  let w : SilentGoal :=
    ⟨header, initSection, init, kbSection, rules, exitSection, exit, endSection, footer⟩
  have htakes : s.Takes w.tokens s' := by
    simpa [w, SilentGoal.tokens, SilentGoal.front, SilentGoal.back] using
      hfirst.trans <| hsecond.cons <| hthird.trans <| hfourth.cons <| hfifth.trans <|
        hsixth.cons <| hseventh.trans <| heighth.cons hninth
  refine ⟨w, ?_, htakes, hnone⟩
  rw [htakes.rangeTo_of_ne_nil w.tokens_ne_nil, hfourth.peek, heighth.peek]
  rfl

/-- What is read in front of the rules. -/
def goalFront : Parse (List GoalOption × ActionBlock) := do
  let header ← headerOptions
  discard (expect .initSection "'INITSECTION'")
  let init ← actionBlock sectionKeywords ruleStart
  discard (expect .kbSection "'KBSECTION'")
  return (header, init)

/-- What is read behind the rules. -/
def goalBack : Parse (ActionBlock × List GoalOption) := do
  discard (expect .exitSection "'EXITSECTION'")
  let exit ← actionBlock sectionKeywords ruleStart
  discard (expect .endExitSection "'ENDEXITSECTION'")
  let footer ← footerOptions sectionKeywords
  return (exit, footer)

/-- The grammar of a goal in three parts, to be read one by one: in front of the rules, the rules,
and behind them. -/
theorem goal_apply (s : Cursor) :
    goal s =
      let ((header, init), s₁) := goalFront s
      let (rules, s₂) := rules sectionKeywords s₁
      let ((exit, footer), s₃) := goalBack s₂
      ({ options := header ++ footer, init, rules, exit, range := s.rangeTo s₃ }, s₃) := rfl

/-- Options, INIT section and the keyword behind it. -/
theorem reads_silentFront (w : SilentGoal) (h : s.Takes w.front s') :
    Reads goalFront s (w.header.map (·.tree), WrittenAction.block w.init w.kbSection) s' := by
  simp only [SilentGoal.front, List.append_assoc, List.cons_append] at h
  obtain ⟨s₁, hheader, h⟩ := takes_append_iff.1 h
  obtain ⟨s₂, hinitSection, h⟩ := takes_cons_iff.1 h
  obtain ⟨s₃, hinit, hkbSection⟩ := takes_append_iff.1 h
  have hinitAt : s₁.kindAt 0 = .initSection := hinitSection.kindAt_zero.trans w.initSection.2
  have hkbAt : s₃.kindAt 0 = .kbSection := hkbSection.kindAt_zero.trans w.kbSection.2
  refine .andThen (reads_silentHeader w.header hinitAt hheader).run ?_
  refine .andThen (discard_run (expect_of_takes hinitSection)) ?_
  refine .andThen (reads_actionBlock w.init (by simp [EndsActions, hkbAt, sectionKeywords]) hinit).run ?_
  refine .andThen (discard_run (expect_of_takes hkbSection)) ?_
  rw [hkbSection.peek]
  exact reads_pure hkbSection.clean_end

/-- EXIT section, the keyword behind it, and the options at the end. -/
theorem reads_silentBack (w : SilentGoal) (hahead : s'.ahead = []) (h : s.Takes w.back s') :
    Reads goalBack s (WrittenAction.block w.exit w.endExitSection, w.footer.map (·.tree)) s' := by
  simp only [SilentGoal.back, List.cons_append] at h
  obtain ⟨s₁, hexitSection, h⟩ := takes_cons_iff.1 h
  obtain ⟨s₂, hexit, h⟩ := takes_append_iff.1 h
  obtain ⟨s₃, hendSection, hfooter⟩ := takes_cons_iff.1 h
  have hendAt : s₂.kindAt 0 = .endExitSection :=
    hendSection.kindAt_zero.trans w.endExitSection.2
  refine .andThen (discard_run (expect_of_takes hexitSection)) ?_
  refine .andThen (reads_actionBlock w.exit (by simp [EndsActions, hendAt, sectionKeywords]) hexit).run ?_
  refine .andThen (discard_run (expect_of_takes hendSection)) ?_
  refine .andThen (reads_silentFooter w.footer hahead hfooter).run ?_
  rw [hendSection.peek]
  exact reads_pure hfooter.clean_end

/-- A silent goal is read as itself if nothing is behind it. -/
theorem reads_silentGoal (w : SilentGoal) (hahead : s'.ahead = []) (h : s.Takes w.tokens s') :
    Reads goal s w.tree s' := by
  have hrange := h.rangeTo_of_ne_nil w.tokens_ne_nil
  rw [SilentGoal.tokens] at h
  obtain ⟨s₁, hfront, h⟩ := takes_append_iff.1 h
  obtain ⟨s₂, hrules, hback⟩ := takes_append_iff.1 h
  have hexitAt : s₂.kindAt 0 = .exitSection := by
    rw [SilentGoal.back, List.cons_append] at hback
    obtain ⟨_, hexitSection, -⟩ := takes_cons_iff.1 hback
    exact hexitSection.kindAt_zero.trans w.exitSection.2
  refine ⟨?_, hback.clean_end⟩
  rw [goal_apply, (reads_silentFront w hfront).run]
  dsimp only
  rw [(reads_rules w.rules (by simp [hexitAt, sectionKeywords]) hrules).run]
  dsimp only
  rw [(reads_silentBack w hahead hback).run]
  dsimp only
  rw [hrange]
  rfl

/-! The parts of a goal that is written by the grammar are read as well. -/

/-- The part of a written goal in front of its rules is read. -/
theorem reads_goalFront (w : WrittenGoal) (h : s.Takes w.front s') :
    Reads goalFront s (w.header.map (·.tree), WrittenAction.block w.init w.kbSection) s' := by
  have hread := reads_silentFront w.silent (w.front_silent ▸ h)
  simpa [WrittenGoal.silent, Function.comp_def] using hread

/-- The part of a written goal behind its rules is read. -/
theorem reads_goalBack (w : WrittenGoal) (hahead : s'.ahead = []) (h : s.Takes w.back s') :
    Reads goalBack s (WrittenAction.block w.exit w.endExitSection, w.footer.map (·.tree)) s' := by
  have hread := reads_silentBack w.silent hahead (w.back_silent ▸ h)
  simpa [WrittenGoal.silent, Function.comp_def] using hread

end Parse
end StoryCheck.Syntax
