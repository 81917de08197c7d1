import StoryCheck.Proofs.Syntax.Reading

/-!
# What was reported before

A rule of the grammar that reports nothing does the same whatever was reported before. The grammar
looks at earlier reports in one place only, where it holds back a second report at the same token,
so a part of a goal that is read in silence is read alike behind damage.

* **`Parse.Frames`** — a step with this property, and that every rule of the grammar of goals has it.
-/

namespace StoryCheck.Syntax

/-- The same place with other reports. -/
def Cursor.reporting (s : Cursor) (reports : List Diagnostic) : Cursor := { s with reports }

namespace Parse

variable {α β : Type} {p : Parse α} {f : α → Parse β} {kind : TokenKind}
  {kinds stops stop targets : KindSet}

/-- A step that takes no report back, and does the same whatever was reported before it if it
reports nothing. -/
structure Frames (p : Parse α) : Prop where
  clean : ∀ s, (p s).2.reports = [] → s.reports = []
  replays : ∀ (s : Cursor) reports, (p s).2.reports = [] →
    p (s.reporting reports) = ((p s).1, (p s).2.reporting reports)

namespace Frames

variable {c : Prop} [Decidable c]

/-- A step behind which there is always a report. -/
theorem of_reports (h : ∀ s, (p s).2.reports ≠ []) : Frames p :=
  ⟨fun s hnone => absurd hnone (h s), fun s _ hnone => absurd hnone (h s)⟩

/-- A step that takes nothing and reports nothing does not look at reports either. -/
theorem pure {a : α} : Frames (Pure.pure a : Parse α) := ⟨fun _ h => h, fun _ _ _ => rfl⟩

/-- Two steps in a row: the second one may depend on what the first has found, which does not depend
on earlier reports. -/
theorem bind (hp : Frames p) (hf : ∀ a, Frames (f a)) : Frames (p >>= f) where
  clean s hnone := hp.clean s ((hf _).clean _ hnone)
  replays s reports hnone := by
    have hmiddle : (p s).2.reports = [] := (hf _).clean _ hnone
    show f (p (s.reporting reports)).1 (p (s.reporting reports)).2 = _
    rw [hp.replays s reports hmiddle]
    exact (hf _).replays _ reports hnone

/-- A result that is put into another form. -/
theorem map {g : α → β} (hp : Frames p) : Frames (g <$> p) := hp.bind fun _ => pure

/-- A result that is dropped. -/
theorem discard (hp : Frames p) : Frames (Functor.discard p) := hp.map

/-- One of two steps, by a test that does not look at the reader at all. -/
theorem ite {q : Parse α} (hp : Frames p) (hq : Frames q) : Frames (if c then p else q) := by
  split
  · exact hp
  · exact hq

/-- The range around a part is told by the tokens that were taken. -/
theorem ranged (hp : Frames p) : Frames (ranged p) where
  clean := hp.clean
  replays s reports hnone := by
    show ((_, Cursor.rangeTo _ (p (s.reporting reports)).2), _) = _
    rw [hp.replays s reports hnone]
    rfl

/-- The number of tokens that are left is the same whatever was reported. -/
theorem length_bind {g : Nat → Parse β} (hg : ∀ n, Frames (g n)) :
    Frames (do g (← get).ahead.length) :=
  ⟨fun _ hnone => (hg _).clean _ hnone, fun _ reports hnone => (hg _).replays _ reports hnone⟩

/-- A step that is repeated until it finds nothing more, at most a number of times. -/
theorem repeatUpTo {step : Parse (Option (List α))} (hstep : Frames step) (bound : Nat) :
    Frames (repeatUpTo step bound) := by
  -- By induction on the number of times that are left; each time is one step and then the others.
  induction bound with
  | zero => exact pure
  | succ bound ih =>
    refine bind hstep fun found => ?_
    cases found with
    | none => exact pure
    | some found => exact bind ih fun _ => pure

/-- The same without a limit of its own: there are no more times than tokens. -/
theorem many {step : Parse (Option (List α))} (hstep : Frames step) : Frames (many step) :=
  length_bind (repeatUpTo hstep)

end Frames

section Silence

variable {a : α} {s s' : Cursor}

/-- What is read in silence is read alike behind reports. -/
theorem Frames.behind (hp : Frames p) (h : Reads p s a s') (reports : List Diagnostic) :
    p (s.reporting reports) = (a, s'.reporting reports) := by
  have hrun := hp.replays s reports (by rw [h.run]; exact h.clean)
  rwa [h.run] at hrun

/-- The form in which the property is used below: what is known of a run with no earlier reports is
carried over to the run that there is, with its reports in front. -/
theorem Frames.run (hp : Frames p) (h : Reads p (s.reporting []) a s') :
    p s = (a, s'.reporting s.reports) :=
  hp.behind h s.reports

end Silence

/-! ## What grammars are built from

None of these looks at the reports. Those that add one are framed for another reason: a run with a
report in it is no silent run, so nothing has to be shown of it. -/

/-- Looking at the next token. -/
theorem frames_peek : Frames peek := ⟨fun _ h => h, fun _ _ _ => rfl⟩

/-- Looking at the kind of a token further on. -/
theorem frames_kindAt (k : Nat) : Frames (kindAt k) := ⟨fun _ h => h, fun _ _ _ => rfl⟩

/-- Asking whether a kind comes next does not depend on the reports. -/
theorem frames_isAt : Frames (isAt kind) := ⟨fun _ h => h, fun _ _ _ => rfl⟩

/-- Asking whether one of some kinds comes next does not depend on the reports. -/
theorem frames_isAtAny : Frames (isAtAny kinds) := ⟨fun _ h => h, fun _ _ _ => rfl⟩

/-- Asking whether the end of the text comes next does not depend on the reports. -/
theorem frames_isAtEnd : Frames isAtEnd := ⟨fun _ h => h, fun _ _ _ => rfl⟩

/-- Asking for a token at which an outer rule goes on does not depend on the reports. -/
theorem frames_isAtStop : Frames (isAtStop stops) := ⟨fun _ h => h, fun _ _ _ => rfl⟩

/-- The empty range in place of something that is missing. -/
theorem frames_missingRange : Frames missingRange := ⟨fun _ h => h, fun _ _ _ => rfl⟩

/-- Passing over tokens takes some of them and tells nobody. -/
theorem frames_skipTo : Frames (skipTo kinds) := ⟨fun _ h => h, fun _ _ _ => rfl⟩

/-- So does passing over them up to where an outer rule goes on. -/
theorem frames_skipUntil : Frames (skipUntil stops kinds) := frames_skipTo

/-- Taking a token is the same whatever was reported. -/
theorem frames_take : Frames take := by
  constructor
  · rintro ⟨_ | ⟨token, rest⟩, ending, last, reports⟩ hnone
    · exact hnone
    · exact hnone
  · rintro ⟨_ | ⟨token, rest⟩, ending, last, reports⟩ _ _
    · rfl
    · rfl

/-- Taking a token of a kind, if it comes next. -/
theorem frames_eat : Frames (eat kind) :=
  .bind frames_isAt fun _ => .ite (.bind frames_take fun _ => .pure) .pure

/-- Passing over tokens up to a kind, and this one with them. -/
theorem frames_skipPast : Frames (skipPast stops kind) :=
  .bind frames_skipUntil fun _ => .discard frames_eat

/-- A report ends the silence. -/
theorem frames_report (d : Diagnostic) : Frames (report d) :=
  .of_reports fun s => List.append_ne_nil_of_right_ne_nil s.reports (List.cons_ne_nil d [])

/-- A missing part is reported whatever has been reported before. -/
theorem frames_reportMissing (what : String) : Frames (reportMissing what) :=
  .bind frames_peek fun _ => frames_report _

/-- A token that was not expected is reported whatever has been reported before. -/
theorem frames_reportUnexpected (expected : String) : Frames (reportUnexpected expected) :=
  .bind frames_peek fun _ => frames_report _

/-- A token that has to come next is taken or reported as missing. -/
theorem frames_expect {what : String} : Frames (expect kind what) := by
  refine .bind frames_eat fun token => ?_
  cases token with
  | some token => exact .pure
  | none => exact .bind (frames_reportMissing what) fun _ => .pure

/-- What the lists of options and rules do with a token that starts none of them: it is reported, so
there is no silent run to speak of. -/
theorem frames_passOver {expected : String} :
    Frames (do
      reportUnexpected expected
      discard take
      skipUntil stops targets
      return some ([] : List α)) :=
  .bind (frames_reportUnexpected _) fun _ => .bind frames_take.discard fun _ =>
    .bind frames_skipUntil fun _ => .pure

/-! ## Parameters and signatures

Each rule of the grammar is put together from the steps above in the order in which it is written,
and so is each of the proofs. -/

/-- A term, or a report that it is missing. -/
theorem frames_argument : Frames argument := by
  refine .bind frames_peek fun token => ?_
  cases termOfToken? token with
  | none => exact .bind (frames_reportUnexpected _) fun _ => .bind frames_missingRange fun _ => .pure
  | some term =>
    refine .ite (.bind (frames_report _) fun _ => ?_) ?_
    all_goals exact .bind frames_take.discard fun _ => .pure

/-- A type in brackets. -/
theorem frames_typeHint : Frames (typeHint stops) := by
  refine .bind (.ranged (.bind frames_take.discard fun _ => ?_)) fun ⟨_, _⟩ => .pure
  refine .bind frames_expect fun _ => .bind frames_expect fun _ => ?_
  exact .ite (.bind frames_skipPast fun _ => .pure) .pure

/-- A direction in front of a parameter, or none. -/
theorem frames_flow : Frames flow := by
  refine .bind frames_eat fun token => ?_
  cases token with
  | none => exact .pure
  | some token => exact .ite .pure (.ite .pure (.bind (frames_report _) fun _ => .pure))

/-- Direction, type and argument, one behind the other. -/
theorem frames_parameter : Frames (parameter stops) := by
  refine .bind (.ranged (.bind frames_flow fun _ => .bind frames_isAt fun _ => ?_))
    fun ⟨⟨_, _, _⟩, _⟩ => .pure
  exact .ite (.bind (.map frames_typeHint) fun _ => .bind frames_argument fun _ => .pure)
    (.bind .pure fun _ => .bind frames_argument fun _ => .pure)

/-- A bracket that is not closed is reported. -/
theorem frames_unclosed : Frames (unclosed stops) :=
  .bind (frames_reportMissing _) fun _ => frames_skipPast

/-- Parameters up to the closing bracket. -/
theorem frames_parameterList (bound : Nat) : Frames (parameterList stops bound) := by
  -- On the number of parameters that may still come; behind a comma the list starts anew.
  induction bound with
  | zero => exact .pure
  | succ bound ih =>
    refine .bind frames_isAtAny fun _ => .ite (.bind frames_unclosed fun _ => .pure) ?_
    refine .bind frames_parameter fun _ => .bind frames_eat fun _ => ?_
    refine .ite (.bind ih fun _ => .pure) (.bind frames_eat fun _ => ?_)
    exact .ite (.bind frames_unclosed fun _ => .pure) .pure

/-- A signature, with or without an owner. How many parameters may come depends on the tokens that
are left, and not on what was reported. -/
theorem frames_signature : Frames (signature stops) := by
  refine .bind (.ranged (.bind frames_expect fun first => ?_)) fun ⟨⟨_, _⟩, _⟩ => .pure
  cases first with
  | none => exact .bind frames_missingRange fun _ => .pure
  | some first =>
    have hparameters (named : Identifier × List Parameter) : Frames (do
        return (named.1, named.2 ++ (← parameterList stops ((← get).ahead.length + 1)))) :=
      .length_bind (g := fun n => do return (named.1, named.2 ++ (← parameterList stops (n + 1))))
        fun n => .bind (frames_parameterList _) fun _ => .pure
    -- The owner takes two tokens more; what comes behind the name is read alike.
    refine .bind frames_isAt fun _ => .bind (frames_kindAt 1) fun _ => ?_
    refine .ite (.bind frames_take.discard fun _ => .bind frames_take fun _ =>
      .bind .pure fun ⟨_, _⟩ => ?_) (.bind .pure fun ⟨_, _⟩ => ?_)
    all_goals
      refine .bind frames_expect fun _ => .ite .pure ?_
      exact .bind frames_eat fun _ => .ite .pure (hparameters (_, _))

/-! ## Conditions, actions and rules

The productions in the order of the grammar. Where one makes a report of its own, the condition for
it depends on the tokens taken and not on what was read before. -/

/-- Without an operator there is a report, new or old. -/
theorem frames_comparison : Frames (comparison stops) := by
  refine .bind frames_parameter fun left => .bind (frames_kindAt 0) fun kind => ?_
  cases Operator.ofKind? kind with
  | some operator =>
    exact .bind frames_take.discard fun _ => .bind frames_parameter fun _ => .pure
  | none =>
    have hskip : Frames (do
        skipUntil stops []
        return Condition.Form.comparison .equal left (.missing (← missingRange))) :=
      .bind frames_skipUntil fun _ => .bind frames_missingRange fun _ => .pure
    have hreported := Frames.bind (frames_reportUnexpected "comparison operator") fun _ => hskip
    -- Without an operator there is a report in any case: a new one, or the one that holds it back.
    -- So this branch is never silent.
    refine .of_reports fun s hnone => ?_
    have hs : s.reports = [] := (Frames.ite hreported hskip).clean s hnone
    dsimp only at hnone
    rw [bind_apply, isReportedHere_apply hs] at hnone
    have hfirst : (reportUnexpected "comparison operator" s).2.reports = [] := hskip.clean _ hnone
    exact List.append_ne_nil_of_right_ne_nil _ (List.cons_ne_nil _ _) hfirst

/-- A call with or without NOT, or a comparison. -/
theorem frames_condition : Frames (condition stops) := by
  refine .bind (.ranged (.bind frames_eat fun _ => .ite ?_ ?_)) fun ⟨_, _⟩ => .pure
  · exact .bind frames_signature fun _ => .pure
  · refine .bind frames_isAt fun _ => .bind (frames_kindAt 1) fun _ => .ite ?_ frames_comparison
    exact .bind frames_signature fun _ => .pure

/-- Conditions with AND between them. -/
theorem frames_conditionBlock : Frames (conditionBlock stops) := by
  refine .bind (.ranged (.many (.bind frames_eat fun _ => .ite ?_ .pure))) fun ⟨_, _⟩ => .pure
  exact .bind frames_condition fun _ => .pure

/-- A call with or without NOT, or the end of the goal. -/
theorem frames_action : Frames (action stops stop) := by
  refine .bind (.ranged (.bind frames_eat fun _ => .ite ?_ ?_)) fun ⟨_, _⟩ => .pure
  · exact .bind frames_expect.discard fun _ => .pure
  · refine .bind frames_eat fun _ => .bind frames_signature fun _ => .bind frames_expect fun _ => ?_
    refine .ite (.bind frames_isAtAny fun _ => .ite ?_ .pure) .pure
    exact .bind frames_skipUntil fun _ => .bind frames_eat.discard fun _ => .pure

/-- Actions with semicolons between them. -/
theorem frames_actionBlock : Frames (actionBlock stops stop) := by
  refine .bind (.ranged (.many ?_)) fun ⟨_, _⟩ => .pure
  refine .bind frames_isAtAny fun _ => .bind frames_isAtStop fun _ => .ite .pure ?_
  exact .bind frames_isAtAny fun _ => .ite (.bind frames_action fun _ => .pure) frames_passOver

/-- The actions behind a rule or in a section. That there is none is a warning, and ends the
silence. -/
theorem frames_nonemptyBlock {message : String} {result : ActionBlock → α} :
    Frames (do
      let actions ← actionBlock stops stop
      if actions.actions.isEmpty then
        report (.warning .emptyActionBlock message actions.range.span)
      return result actions) :=
  .bind frames_actionBlock fun _ => .ite (.bind (frames_report _) fun _ => .pure) .pure

/-- A rule: its head, its conditions, its actions. -/
theorem frames_rule : Frames (rule stops) := by
  refine .bind (.ranged (.bind frames_take fun _ => .bind frames_signature fun _ =>
    .bind frames_conditionBlock fun _ => .bind frames_expect fun _ => ?_)) fun ⟨_, _⟩ => .pure
  refine .ite (.bind frames_isAt fun _ => .bind (frames_kindAt 1) fun _ => .ite ?_ ?_) ?_
  · exact .bind frames_skipUntil fun _ => .bind frames_eat.discard fun _ => frames_nonemptyBlock
  · exact frames_nonemptyBlock
  · exact frames_nonemptyBlock

/-- All rules up to the end of the knowledge base. -/
theorem frames_rules : Frames (rules stops) := by
  refine .many (.bind frames_isAtStop fun _ => .ite .pure ?_)
  exact .bind frames_isAtAny fun _ => .ite (.bind frames_rule fun _ => .pure) frames_passOver

/-! ## Options

Options may take a semicolon along, so that what stands behind an option counts. -/

/-- An option with its value. Three of its reports are about the name, the value and the place of an
option; the cases are those of whether there is one of them. -/
theorem frames_goalOption (placement : OptionPlacement) : Frames (goalOption placement) := by
  refine .bind (.ranged (.bind frames_take fun _ => .bind frames_peek fun token => ?_)) ?_
  · have hend {name : Token} {value : OptionValue} :
        Frames (do discard (eat .semicolon); return (name.value, value)) :=
      .bind frames_eat.discard fun _ => .pure
    cases optionValue? token with
    | some value => exact .bind frames_take.discard fun _ => .bind .pure fun _ => hend
    | none => exact .bind (frames_reportMissing _) fun _ => .bind .pure fun _ => hend
  · rintro ⟨⟨name, value⟩, range⟩
    dsimp only
    cases optionProblem name value placement with
    | some problem => exact .bind (frames_report _) fun _ => .pure
    | none => exact .pure

/-- The options behind the last section. -/
theorem frames_footerOptions : Frames (footerOptions stops) := by
  refine .many (.bind frames_isAt fun _ => .ite (.bind (frames_goalOption _) fun _ => .pure) ?_)
  exact .bind frames_isAtEnd fun _ => .ite .pure frames_passOver

end Parse
end StoryCheck.Syntax
