import Mathlib.Data.List.Basic
import StoryCheck.Syntax.HeaderGrammar

/-!
# Going forward

Every reading step takes tokens from the front, never gives one back and never withdraws a report.
What it reports starts at one of the tokens it took or at the one that is next when it is done.

* **`Code.isOfReading`** — the kinds of problem that reading finds.
* **`Cursor.Passes`** — the tokens between two places and the reports made between them.
* **`Parse.Advances`** — a step that goes forward, and that this holds of every rule of the grammar
  of goals.
-/

namespace StoryCheck

/-- Whether a kind of problem is one of tokens or of the grammar. All others are found by checks. -/
def Code.isOfReading (code : Code) : Bool := code.number < 1000

namespace Syntax

/-! ## Places

A *place* is where a cursor stands, with all that was reported up to there. One place leads to
another by taking tokens and adding reports, and what was taken and found is part of the statement. -/

namespace Cursor

variable {s s₁ s₂ s' : Cursor} {token : Token} {tokens rest taken more : List Token}
  {found others : List Diagnostic} {d : Diagnostic}

/-- Between two places stand some tokens, and on the way from one to the other there was something
to report. -/
structure Passes (s : Cursor) (taken : List Token) (found : List Diagnostic) (s' : Cursor) :
    Prop where
  ahead : s.ahead = taken ++ s'.ahead
  ending : s'.ending = s.ending
  last : s'.last = taken.getLast?.getD s.last
  reports : s'.reports = s.reports ++ found
  places : ∀ d ∈ found, ∃ token ∈ taken ++ [s'.peek], d.span.start = token.range.span.start
  codes : ∀ d ∈ found, d.code.isOfReading = true

/-- Nothing is taken and nothing found between a place and itself. -/
theorem Passes.refl (s : Cursor) : s.Passes [] [] s :=
  ⟨rfl, rfl, rfl, (List.append_nil _).symm, nofun, nofun⟩

/-- The token that is next is passed, or still next. -/
theorem Passes.peek_mem (h : s.Passes taken found s') : s.peek ∈ taken ++ [s'.peek] := by
  cases taken with
  | nil =>
    have hpeek : s.peek = s'.peek := by
      rw [peek, peek, h.ahead, h.ending, List.nil_append]
    simp [hpeek]
  | cons token taken => simp [peek, h.ahead]

/-- What is taken and found on two stretches is taken and found on both together. -/
theorem Passes.trans (h₁ : s.Passes taken found s₁) (h₂ : s₁.Passes more others s₂) :
    s.Passes (taken ++ more) (found ++ others) s₂ where
  ahead := by rw [h₁.ahead, h₂.ahead, List.append_assoc]
  ending := h₂.ending.trans h₁.ending
  last := by
    rw [h₂.last, h₁.last, List.getLast?_append]
    cases more.getLast? <;> rfl
  reports := by rw [h₂.reports, h₁.reports, List.append_assoc]
  places := by
    -- A token seen at the end of the first step is the first of the second, or still the next if
    -- that takes nothing.
    have hnext : ∀ token ∈ taken ++ [s₁.peek], token ∈ taken ++ more ++ [s₂.peek] := by
      intro token hmem
      have hpeek := h₂.peek_mem
      simp only [List.mem_append, List.mem_singleton] at hmem hpeek ⊢
      rcases hmem with hmem | rfl
      · exact .inl (.inl hmem)
      · tauto
    intro d hd
    rcases List.mem_append.1 hd with hd | hd
    · obtain ⟨token, hmem, hstart⟩ := h₁.places d hd
      exact ⟨token, hnext token hmem, hstart⟩
    · obtain ⟨token, hmem, hstart⟩ := h₂.places d hd
      refine ⟨token, ?_, hstart⟩
      rw [List.append_assoc]
      exact List.mem_append_right _ hmem
  codes d hd := (List.mem_append.1 hd).elim (h₁.codes d) (h₂.codes d)

/-- A token is taken. -/
theorem passes_token (h : s.ahead = token :: rest) :
    s.Passes [token] [] { s with ahead := rest, last := token } :=
  ⟨h, rfl, rfl, (List.append_nil _).symm, nofun, nofun⟩

/-- Tokens are skipped. -/
theorem passes_skip (h : s.ahead = taken ++ rest) :
    s.Passes taken [] { s with ahead := rest, last := taken.getLast?.getD s.last } :=
  ⟨h, rfl, rfl, (List.append_nil _).symm, nofun, nofun⟩

/-- A report is made at a token that was passed, or at the next one. -/
theorem Passes.report (h : s.Passes taken found s')
    (hplace : ∃ token ∈ taken ++ [s'.peek], d.span.start = token.range.span.start)
    (hcode : d.code.isOfReading = true) :
    s.Passes taken (found ++ [d]) { s' with reports := s'.reports ++ [d] } where
  ahead := h.ahead
  ending := h.ending
  last := h.last
  reports := by rw [h.reports, List.append_assoc]
  places := by
    intro other hmem
    rcases List.mem_append.1 hmem with hmem | hmem
    · exact h.places other hmem
    · exact List.mem_singleton.1 hmem ▸ hplace
  codes other hmem := by
    rcases List.mem_append.1 hmem with hmem | hmem
    · exact h.codes other hmem
    · exact List.mem_singleton.1 hmem ▸ hcode

/-- A range that was read starts at a token that was passed, or at the next one. -/
theorem Passes.start_rangeTo (h : s.Passes taken found s') :
    ∃ token ∈ taken ++ [s'.peek], (s.rangeTo s').span.start = token.range.span.start := by
  unfold rangeTo
  split
  · exact ⟨s.peek, h.peek_mem, rfl⟩
  · exact ⟨s'.peek, by simp, rfl⟩

/-- A place is followed by another one. -/
def LeadsTo (s s' : Cursor) : Prop := ∃ taken found, s.Passes taken found s'

/-- Every place leads to itself. -/
theorem LeadsTo.refl (s : Cursor) : s.LeadsTo s := ⟨[], [], .refl s⟩

/-- Leading to is transitive. -/
theorem LeadsTo.trans (h₁ : s.LeadsTo s₁) (h₂ : s₁.LeadsTo s₂) : s.LeadsTo s₂ := by
  obtain ⟨_, _, h₁⟩ := h₁
  obtain ⟨_, _, h₂⟩ := h₂
  exact ⟨_, _, h₁.trans h₂⟩

/-- Where nothing is reported, nothing was reported before. -/
theorem LeadsTo.clean (h : s.LeadsTo s') (hclean : s'.reports = []) : s.reports = [] := by
  obtain ⟨_, _, h⟩ := h
  exact (List.append_eq_nil_iff.1 (h.reports ▸ hclean)).1

/-- No token is given back, so the tokens that are left get fewer. -/
theorem LeadsTo.length_le (h : s.LeadsTo s') : s'.ahead.length ≤ s.ahead.length := by
  obtain ⟨_, _, h⟩ := h
  simp [h.ahead]

end Cursor

/-! ## Steps

What a step does to the cursor, one equation for each way in which steps are put together. With them
a `do` block is followed line by line. -/

namespace Parse

variable {α β : Type} {s s' : Cursor} {kind : TokenKind} {kinds stops stop : KindSet}

/-- Two steps: the second starts where the first stopped. -/
theorem bind_apply (p : Parse α) (f : α → Parse β) (s : Cursor) :
    (p >>= f) s = f (p s).1 (p s).2 := rfl

/-- Looking at the next token moves nothing. -/
theorem peek_apply (s : Cursor) : peek s = (s.peek, s) := rfl

/-- Nor does giving back a value. -/
theorem pure_apply (a : α) (s : Cursor) : (pure a : Parse α) s = (a, s) := rfl

/-- Changing the value of a step does not change what it does. -/
theorem map_apply (f : α → β) (p : Parse α) (s : Cursor) : (f <$> p) s = (f (p s).1, (p s).2) := rfl

/-- Neither does throwing the value away. -/
theorem discard_apply (p : Parse α) (s : Cursor) : (discard p) s = ((), (p s).2) := rfl

/-- A step with its range: the range is that of what it took. -/
theorem ranged_apply (p : Parse α) (s : Cursor) :
    ranged p s = (((p s).1, s.rangeTo (p s).2), (p s).2) := rfl

/-- Taking the next token; at the end there is none, and the cursor stays. -/
theorem take_apply (s : Cursor) :
    take s = match s.ahead with
      | [] => (s.ending, s)
      | token :: rest => (token, { s with ahead := rest, last := token }) := by
  obtain ⟨_ | ⟨token, rest⟩, ending, last, reports⟩ := s <;> rfl

/-- The next token is of the kind and is taken, or it is not and nothing happens. -/
theorem eat_cases (hkind : kind ≠ .endOfFile) (s : Cursor) :
    (∃ token rest, s.ahead = token :: rest ∧ token.kind = kind
      ∧ eat kind s = (some token, { s with ahead := rest, last := token }))
    ∨ s.kindAt 0 ≠ kind ∧ eat kind s = (none, s) := by
  have heat : eat kind s = if (s.kindAt 0 == kind) = true then (some <$> take) s else (none, s) := by
    show (if _ then _ else _ : Parse _) s = _
    split <;> rfl
  rw [heat]
  cases hahead : s.ahead with
  | nil =>
    have hend : s.kindAt 0 = .endOfFile := by simp [Cursor.kindAt, hahead]
    exact .inr ⟨hend ▸ hkind.symm, by simp [hend, hkind.symm]⟩
  | cons token rest =>
    have hnext : s.kindAt 0 = token.kind := by simp [Cursor.kindAt, hahead]
    by_cases hmatch : token.kind = kind
    · refine .inl ⟨token, rest, rfl, hmatch, ?_⟩
      rw [if_pos (by simp [hnext, hmatch]), map_apply, take_apply, hahead]
    · exact .inr ⟨hnext ▸ hmatch, if_neg (by simp [hnext, hmatch])⟩

/-- A step that goes forward. -/
def Advances (p : Parse α) : Prop := ∀ s : Cursor, s.LeadsTo (p s).2

namespace Advances

variable {p : Parse α} {f : α → Parse β} {c : Prop} [Decidable c]

/-- A value is given back without moving. -/
theorem pure {a : α} : Advances (Pure.pure a : Parse α) := fun s => .refl s

/-- Two steps that go forward, one after the other. -/
theorem bind (hp : Advances p) (hf : ∀ a, Advances (f a)) : Advances (p >>= f) :=
  fun s => (hp s).trans (hf _ _)

/-- A step whose value is changed. -/
theorem map {g : α → β} (hp : Advances p) : Advances (g <$> p) := hp

/-- A step whose value is thrown away. -/
theorem discard (hp : Advances p) : Advances (Functor.discard p) := hp

/-- A step with its range. -/
theorem ranged (hp : Advances p) : Advances (ranged p) := hp

/-- Whichever of two steps is taken, both go forward. -/
theorem ite {q : Parse α} (hp : Advances p) (hq : Advances q) :
    Advances (if c then p else q) := by
  split
  · exact hp
  · exact hq

/-- What was read may be reported where it stands. -/
theorem ranged_bind {g : α × Range → Parse β} (hp : Advances p)
    (hg : ∀ found s, (g found s).2 = s
      ∨ ∃ d, d.span.start = found.2.span.start ∧ d.code.isOfReading = true
        ∧ (g found s).2 = (report d s).2) :
    Advances (Parse.ranged p >>= g) := by
  intro s
  obtain ⟨taken, found, hpasses⟩ := hp s
  rw [bind_apply, ranged_apply]
  rcases hg ((p s).1, s.rangeTo (p s).2) (p s).2 with hstay | ⟨d, hstart, hcode, hreport⟩
  · rw [hstay]
    exact ⟨_, _, hpasses⟩
  · rw [hreport]
    exact ⟨_, _, hpasses.report (hstart ▸ hpasses.start_rangeTo) hcode⟩

/-- A step that only looks. -/
theorem of_looks (h : ∀ s, (p s).2 = s) : Advances p := fun s => (h s).symm ▸ .refl s

/-- A loop goes forward if its step does. -/
theorem repeatUpTo {step : Parse (Option (List α))} (hstep : Advances step) (bound : Nat) :
    Advances (repeatUpTo step bound) := by
  -- The bound of the loop says how often the step is tried.
  induction bound with
  | zero => exact pure
  | succ bound ih =>
    refine bind hstep fun found => ?_
    cases found with
    | none => exact pure
    | some found => exact bind ih fun _ => pure

/-- The loops of the parser have as many turns as there are tokens left. -/
theorem many {step : Parse (Option (List α))} (hstep : Advances step) : Advances (many step) :=
  bind (of_looks fun _ => rfl) fun s => repeatUpTo hstep s.ahead.length

end Advances

/-! ## What grammars are built from

Steps that only look are told by their definition. The others take a token, skip some or report, and
each report is placed at the token where the cursor stands. -/

theorem advances_get : Advances (get : Parse Cursor) := .of_looks fun _ => rfl
theorem advances_peek : Advances peek := .of_looks fun _ => rfl
theorem advances_kindAt (k : Nat) : Advances (kindAt k) := .of_looks fun _ => rfl
theorem advances_isAt : Advances (isAt kind) := .of_looks fun _ => rfl
theorem advances_isAtAny : Advances (isAtAny kinds) := .of_looks fun _ => rfl
theorem advances_isAtEnd : Advances isAtEnd := .of_looks fun _ => rfl
theorem advances_isAtStop : Advances (isAtStop stops) := .of_looks fun _ => rfl
theorem advances_isReportedHere : Advances isReportedHere := .of_looks fun _ => rfl
theorem advances_missingRange : Advances missingRange := .of_looks fun _ => rfl

/-- Taking a token is passing that token, or nothing at the end of the text. -/
theorem advances_take : Advances take := by
  intro s
  rw [take_apply]
  -- At the end the token that is given is not one of the text.
  cases hahead : s.ahead with
  | nil => exact .refl s
  | cons token rest => exact ⟨_, _, Cursor.passes_token hahead⟩

theorem advances_eat : Advances (eat kind) :=
  .bind advances_isAt fun _ => .ite (.bind advances_take fun _ => .pure) .pure

/-- Skipping passes the tokens in front of the first one of the right kinds and reports nothing. -/
theorem passes_skipTo (kinds : KindSet) (s : Cursor) :
    s.Passes (s.ahead.takeWhile fun token => !kinds.contains token.kind) [] (skipTo kinds s).2 :=
  have htaken := List.takeWhile_prefix (fun token : Token => !kinds.contains token.kind) (l := s.ahead)
  Cursor.passes_skip (List.prefix_iff_eq_append.1 htaken).symm

theorem advances_skipTo : Advances (skipTo kinds) := fun s => ⟨_, _, passes_skipTo kinds s⟩

theorem advances_skipUntil : Advances (skipUntil stops kinds) := advances_skipTo

theorem advances_skipPast : Advances (skipPast stops kind) :=
  .bind advances_skipUntil fun _ => .discard advances_eat

/-- A report about the next token. -/
theorem advances_report {d : Diagnostic} (s : Cursor)
    (hplace : d.span.start = s.peek.range.span.start) (hcode : d.code.isOfReading = true) :
    s.LeadsTo (report d s).2 :=
  ⟨_, _, (Cursor.Passes.refl s).report ⟨s.peek, by simp, hplace⟩ hcode⟩

theorem advances_reportMissing (what : String) : Advances (reportMissing what) :=
  fun s => advances_report s rfl rfl

/-- A report of an unexpected token is made at the token itself and nothing is taken. -/
theorem advances_reportUnexpected (expected : String) : Advances (reportUnexpected expected) := by
  intro s
  refine advances_report s ?_ ?_ <;> cases s.peek.kind <;> rfl

/-- A token that is expected is taken or reported to be missing. -/
theorem advances_expect {what : String} : Advances (expect kind what) := by
  refine .bind advances_eat fun token => ?_
  cases token with
  | some token => exact .pure
  | none => exact .bind (advances_reportMissing what) fun _ => .pure

/-- What nothing can be made of is reported and passed over. -/
theorem advances_passOver {expected : String} :
    Advances (do
      reportUnexpected expected
      discard take
      skipUntil stops kinds
      return some ([] : List α)) :=
  .bind (advances_reportUnexpected _) fun _ => .bind advances_take.discard fun _ =>
    .bind advances_skipUntil fun _ => .pure

/-! ## Parameters and signatures

From here on each rule of the grammar is followed along its definition: a line that is a step is
passed by `bind`, a case by `split`, and what is left is one of the rules before it. -/

theorem advances_argument : Advances argument := by
  have htaken {value : Argument} : Advances (do discard take; return value) :=
    .bind advances_take.discard fun _ => .pure
  intro s
  rw [argument, bind_apply, peek_apply]
  cases termOfToken? s.peek with
  | none =>
    exact Advances.bind (advances_reportUnexpected _)
      (fun _ => .bind advances_missingRange fun _ => .pure) s
  | some term =>
    dsimp only
    split
    · exact (advances_report s rfl rfl).trans (htaken _)
    · exact htaken s

theorem advances_typeHint : Advances (typeHint stops) := by
  refine .bind (.ranged ?_) fun ⟨_, _⟩ => .pure
  refine .bind advances_take.discard fun _ => .bind advances_expect fun _ => .bind advances_expect fun _ => ?_
  exact .ite (.bind advances_skipPast fun _ => .pure) .pure

theorem advances_flow : Advances flow := by
  intro s
  rw [flow, bind_apply]
  have hmarker : TokenKind.marker ≠ .endOfFile := by decide
  rcases eat_cases hmarker s with ⟨token, rest, hahead, -, heat⟩ | ⟨-, heat⟩
  · rw [heat]
    have hpassed := Cursor.passes_token hahead
    dsimp only
    split
    · exact ⟨_, _, hpassed⟩
    · split
      · exact ⟨_, _, hpassed⟩
      · exact ⟨_, _, hpassed.report ⟨token, by simp, rfl⟩ rfl⟩
  · rw [heat]
    exact .refl s

theorem advances_parameter : Advances (parameter stops) := by
  refine .bind (.ranged (.bind advances_flow fun _ => .bind advances_isAt fun _ => ?_))
    fun ⟨⟨_, _, _⟩, _⟩ => .pure
  exact .ite (.bind (.map advances_typeHint) fun _ => .bind advances_argument fun _ => .pure)
    (.bind .pure fun _ => .bind advances_argument fun _ => .pure)

theorem advances_unclosed : Advances (unclosed stops) :=
  .bind (advances_reportMissing _) fun _ => advances_skipPast

/-- The list of parameters is the one rule that calls itself, with a bound that goes down. -/
theorem advances_parameterList (bound : Nat) : Advances (parameterList stops bound) := by
  -- When the bound is used up the rule gives back an empty list where it stands.
  induction bound with
  | zero => exact .pure
  | succ bound ih =>
    refine .bind advances_isAtAny fun _ => .ite (.bind advances_unclosed fun _ => .pure) ?_
    refine .bind advances_parameter fun _ => .bind advances_eat fun _ => ?_
    refine .ite (.bind ih fun _ => .pure) (.bind advances_eat fun _ => ?_)
    exact .ite (.bind advances_unclosed fun _ => .pure) .pure

theorem advances_signature : Advances (signature stops) := by
  refine .bind (.ranged (.bind advances_expect fun first => ?_)) fun ⟨⟨_, _⟩, _⟩ => .pure
  cases first with
  | none => exact .bind advances_missingRange fun _ => .pure
  | some first =>
    refine .bind advances_isAt fun _ => .bind (advances_kindAt 1) fun _ => ?_
    refine .ite (.bind advances_take.discard fun _ => .bind advances_take fun _ =>
      .bind .pure fun ⟨_, _⟩ => ?_) (.bind .pure fun ⟨_, _⟩ => ?_)
    all_goals
      refine .bind advances_expect fun _ => .ite .pure ?_
      refine .bind advances_eat fun _ => .ite .pure ?_
      exact .bind advances_get fun _ => .bind (advances_parameterList _) fun _ => .pure

/-! ## Conditions, actions and rules

The same for the rest of the grammar, one lemma for each production. -/

theorem advances_comparison : Advances (comparison stops) := by
  refine .bind advances_parameter fun left => .bind (advances_kindAt 0) fun kind => ?_
  cases Operator.ofKind? kind with
  | some operator =>
    exact .bind advances_take.discard fun _ => .bind advances_parameter fun _ => .pure
  | none =>
    have hskip {value : Range → Condition.Form} :
        Advances (do skipUntil stops []; return value (← missingRange)) :=
      .bind advances_skipUntil fun _ => .bind advances_missingRange fun _ => .pure
    refine .bind advances_isReportedHere fun _ => ?_
    exact .ite (.bind (advances_reportUnexpected _) fun _ => hskip) hskip

theorem advances_condition : Advances (condition stops) := by
  refine .bind (.ranged (.bind advances_eat fun _ => .ite ?_ ?_)) fun ⟨_, _⟩ => .pure
  · exact .bind advances_signature fun _ => .pure
  · refine .bind advances_isAt fun _ => .bind (advances_kindAt 1) fun _ => .ite ?_ advances_comparison
    exact .bind advances_signature fun _ => .pure

theorem advances_conditionBlock : Advances (conditionBlock stops) := by
  refine .bind (.ranged (.many (.bind advances_eat fun _ => .ite ?_ .pure))) fun ⟨_, _⟩ => .pure
  exact .bind advances_condition fun _ => .pure

theorem advances_action : Advances (action stops stop) := by
  refine .bind (.ranged (.bind advances_eat fun _ => .ite ?_ ?_)) fun ⟨_, _⟩ => .pure
  · exact .bind advances_expect.discard fun _ => .pure
  · refine .bind advances_eat fun _ => .bind advances_signature fun _ => .bind advances_expect fun _ => ?_
    refine .ite (.bind advances_isAtAny fun _ => .ite ?_ .pure) .pure
    exact .bind advances_skipUntil fun _ => .bind advances_eat.discard fun _ => .pure

theorem advances_actionBlock : Advances (actionBlock stops stop) := by
  refine .bind (.ranged (.many ?_)) fun ⟨_, _⟩ => .pure
  refine .bind advances_isAtAny fun _ => .bind advances_isAtStop fun _ => .ite .pure ?_
  exact .bind advances_isAtAny fun _ => .ite (.bind advances_action fun _ => .pure) advances_passOver

/-- A block of actions without an action is reported where it stands. -/
theorem advances_nonemptyBlock {message : String} {result : ActionBlock → α} :
    Advances (do
      let actions ← actionBlock stops stop
      if actions.actions.isEmpty then
        report (.warning .emptyActionBlock message actions.range.span)
      return result actions) := by
  intro s
  rw [bind_apply]
  have hrange : (actionBlock stops stop s).1.range = s.rangeTo (actionBlock stops stop s).2 := rfl
  have hblock : Advances (actionBlock stops stop) := advances_actionBlock
  obtain ⟨taken, found, hpasses⟩ := hblock s
  split
  · refine ⟨_, _, hpasses.report ?_ rfl⟩
    show ∃ token ∈ _, (actionBlock stops stop s).1.range.span.start = _
    rw [hrange]
    exact hpasses.start_rangeTo
  · exact ⟨_, _, hpasses⟩

theorem advances_rule : Advances (rule stops) := by
  refine .bind (.ranged (.bind advances_take fun _ => .bind advances_signature fun _ =>
    .bind advances_conditionBlock fun _ => .bind advances_expect fun _ => ?_)) fun ⟨_, _⟩ => .pure
  refine .ite (.bind advances_isAt fun _ => .bind (advances_kindAt 1) fun _ => .ite ?_ ?_) ?_
  · exact .bind advances_skipUntil fun _ => .bind advances_eat.discard fun _ => advances_nonemptyBlock
  · exact advances_nonemptyBlock
  · exact advances_nonemptyBlock

theorem advances_rules : Advances (rules stops) := by
  refine .many (.bind advances_isAtStop fun _ => .ite .pure ?_)
  exact .bind advances_isAtAny fun _ => .ite (.bind advances_rule fun _ => .pure) advances_passOver

/-! ## Goals

A goal is the options in front, the version, the three sections and the edges behind; what a goal
reports is therefore placed as the reports of all of these are. -/

theorem advances_goalOption (placement : OptionPlacement) : Advances (goalOption placement) := by
  refine .ranged_bind (.bind advances_take fun _ => .bind advances_peek fun token => ?_) ?_
  · have hend {name : Token} {value : OptionValue} :
        Advances (do discard (eat .semicolon); return (name.value, value)) :=
      .bind advances_eat.discard fun _ => .pure
    cases optionValue? token with
    | some value => exact .bind advances_take.discard fun _ => .bind .pure fun _ => hend
    | none => exact .bind (advances_reportMissing _) fun _ => .bind .pure fun _ => hend
  · rintro ⟨⟨name, value⟩, range⟩ s
    cases hproblem : optionProblem name value placement with
    | some problem => exact .inr ⟨_, rfl, rfl, by simp only [hproblem]; rfl⟩
    | none => exact .inl (by simp only [hproblem]; rfl)

theorem advances_headerOptions : Advances headerOptions :=
  .many (.bind advances_isAt fun _ => .ite (.bind (advances_goalOption _) fun _ => .pure) .pure)

theorem advances_footerOptions : Advances (footerOptions stops) := by
  refine .many (.bind advances_isAt fun _ => .ite (.bind (advances_goalOption _) fun _ => .pure) ?_)
  exact .bind advances_isAtEnd fun _ => .ite .pure advances_passOver

theorem advances_goal : Advances goal := by
  refine .bind (.ranged ?_) fun ⟨_, _⟩ => .pure
  refine .bind advances_headerOptions fun _ => .bind advances_expect.discard fun _ => ?_
  refine .bind advances_actionBlock fun _ => .bind advances_expect.discard fun _ => ?_
  refine .bind advances_rules fun _ => .bind advances_expect.discard fun _ => ?_
  refine .bind advances_actionBlock fun _ => .bind advances_expect.discard fun _ => ?_
  exact .bind advances_footerOptions fun _ => .pure

end Parse
end Syntax
end StoryCheck
