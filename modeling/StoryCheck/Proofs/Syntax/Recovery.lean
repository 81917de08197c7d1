import Mathlib.Data.List.TakeWhile
import StoryCheck.Proofs.Syntax.Reading

/-!
# Getting over damage

A broken rule never takes the keyword of the next rule or of the next section with it. However bad
the tokens are, every rule of the grammar stops in front of one of those, so that the rules of a
knowledge base begin exactly at the keywords that open one.

* **`Cursor.Leaves`** — tokens of some kinds are left where they are.
* **`Parse.Progresses.many_induction`** — a step taken over and over, with what each step does.
* **`Parse.ahead_actionBlock`** — actions go up to the next rule or section.
* **`Parse.rules_of_stretch`** — there is one rule for each keyword of a stretch of tokens.
-/

namespace StoryCheck.Syntax

/-- The keywords that open a rule or a section. -/
def openers : KindSet := ruleStart ++ sectionKeywords

/-! ## Places

What a stretch *leaves* are the first token of some kinds and everything behind it. The parser may
have skipped, reported and given up on its way there, but it has not gone over that token. -/

namespace Cursor

variable {s s₁ s' : Cursor} {token : Token} {stretch rest : List Token} {kinds : KindSet}

/-- The tokens between two places are of none of the kinds. -/
def Leaves (kinds : KindSet) (s s' : Cursor) : Prop :=
  ∃ taken, s.ahead = taken ++ s'.ahead ∧ ∀ token ∈ taken, token.kind ∉ kinds

/-- A step that takes no token leaves all of them. -/
theorem Leaves.of_ahead (h : s'.ahead = s.ahead) : s.Leaves kinds s' :=
  ⟨[], h.symm, by simp⟩

/-- Staying leaves all tokens. -/
theorem Leaves.refl (s : Cursor) : s.Leaves kinds s := .of_ahead rfl

/-- What is left on two stretches is left on both together. -/
theorem Leaves.trans (h₁ : s.Leaves kinds s₁) (h₂ : s₁.Leaves kinds s') : s.Leaves kinds s' := by
  obtain ⟨taken, hfirst, hnone⟩ := h₁
  obtain ⟨more, hsecond, hnot⟩ := h₂
  refine ⟨taken ++ more, by rw [hfirst, hsecond, List.append_assoc], fun token hmem => ?_⟩
  rcases List.mem_append.1 hmem with hmem | hmem
  · exact hnone token hmem
  · exact hnot token hmem

/-- A token of one of the kinds is still ahead. -/
theorem Leaves.split (h : s.Leaves kinds s') (hahead : s.ahead = stretch ++ token :: rest)
    (hkind : token.kind ∈ kinds) :
    ∃ passed left, stretch = passed ++ left ∧ s'.ahead = left ++ token :: rest
      ∧ ∀ t ∈ passed, t.kind ∉ kinds := by
  obtain ⟨taken, htaken, hnone⟩ := h
  rw [hahead] at htaken
  obtain ⟨left, rfl, hleft⟩ | ⟨more, rfl, hmore⟩ := List.append_eq_append_iff.1 htaken.symm
  · exact ⟨taken, left, rfl, hleft, hnone⟩
  · cases more with
    | nil => exact ⟨stretch, [], by simp, by simpa using hmore.symm, by simpa using hnone⟩
    | cons first more =>
      obtain ⟨rfl, -⟩ := List.cons.inj hmore
      exact absurd hkind (hnone token (by simp))

/-- The kind of the next token, read off the tokens that are left. -/
theorem kindAt_zero_cons (h : s.ahead = token :: rest) : s.kindAt 0 = token.kind := by
  simp [kindAt, h]

end Cursor

/-! ## Steps

A step leaves tokens of some kinds wherever it starts. Steps that take a token of a fixed kind do so
for all other kinds, and skipping does so if it stops at them. -/

namespace Parse

open Cursor

variable {α β : Type} {p : Parse α} {f : α → Parse β} {s s' : Cursor} {token : Token}
  {stretch rest : List Token} {kind : TokenKind} {kinds stops targets : KindSet}

/-- A step that takes no token of some kinds. -/
def Leaves (kinds : KindSet) (p : Parse α) : Prop := ∀ s : Cursor, s.Leaves kinds (p s).2

namespace Leaves

variable {c : Prop} [Decidable c]

/-- A step that takes no token at all. -/
theorem of_ahead (h : ∀ s, (p s).2.ahead = s.ahead) : Leaves kinds p := fun s => .of_ahead (h s)

/-- Giving back a value. -/
theorem pure {a : α} : Leaves kinds (Pure.pure a : Parse α) := fun s => .refl s

/-- Two steps one after the other. -/
theorem bind (hp : Leaves kinds p) (hf : ∀ a, Leaves kinds (f a)) : Leaves kinds (p >>= f) :=
  fun s => (hp s).trans (hf _ _)

/-- A step whose value is thrown away. -/
theorem discard (hp : Leaves kinds p) : Leaves kinds (Functor.discard p) := hp

/-- A step with its range. -/
theorem ranged (hp : Leaves kinds p) : Leaves kinds (ranged p) := hp

/-- Whichever of two steps is taken. -/
theorem ite {q : Parse α} (hp : Leaves kinds p) (hq : Leaves kinds q) :
    Leaves kinds (if c then p else q) := by
  split
  · exact hp
  · exact hq

/-- A loop leaves what its step leaves. -/
theorem repeatUpTo {step : Parse (Option (List α))} (hstep : Leaves kinds step) (bound : Nat) :
    Leaves kinds (repeatUpTo step bound) := by
  -- Every turn starts where the one before stopped.
  induction bound with
  | zero => exact pure
  | succ bound ih =>
    refine bind hstep fun found => ?_
    cases found with
    | none => exact pure
    | some found => exact bind ih fun _ => pure

/-- The loops of the parser. -/
theorem many {step : Parse (Option (List α))} (hstep : Leaves kinds step) :
    Leaves kinds (many step) :=
  bind (of_ahead fun _ => rfl) fun s => repeatUpTo hstep s.ahead.length

end Leaves

/-! ### What grammars are built from

None of these takes a token of the given kinds unless it was asked for it. -/

theorem leaves_get : Leaves kinds (get : Parse Cursor) := .of_ahead fun _ => rfl
theorem leaves_kindAt (k : Nat) : Leaves kinds (kindAt k) := .of_ahead fun _ => rfl
theorem leaves_isAt : Leaves kinds (isAt kind) := .of_ahead fun _ => rfl
theorem leaves_isAtAny : Leaves kinds (isAtAny targets) := .of_ahead fun _ => rfl
theorem leaves_isReportedHere : Leaves kinds isReportedHere := .of_ahead fun _ => rfl
theorem leaves_missingRange : Leaves kinds missingRange := .of_ahead fun _ => rfl
theorem leaves_report (d : Diagnostic) : Leaves kinds (report d) := .of_ahead fun _ => rfl
theorem leaves_reportMissing (what : String) : Leaves kinds (reportMissing what) :=
  .of_ahead fun _ => rfl
theorem leaves_reportUnexpected (expected : String) : Leaves kinds (reportUnexpected expected) :=
  .of_ahead fun _ => rfl

/-- Taking a token leaves those of other kinds. -/
theorem leaves_take (h : s.kindAt 0 ∉ kinds) : s.Leaves kinds (take s).2 := by
  rw [take_apply]
  cases hahead : s.ahead with
  | nil => exact .refl s
  | cons token rest =>
    refine ⟨[token], hahead, fun other hmem => ?_⟩
    rwa [List.mem_singleton.1 hmem, ← kindAt_zero_cons hahead]

/-- Two tokens in a row. -/
theorem leaves_takeTwo (h₀ : s.kindAt 0 ∉ kinds) (h₁ : s.kindAt 1 ∉ kinds) :
    s.Leaves kinds (take (take s).2).2 := by
  refine (leaves_take h₀).trans (leaves_take ?_)
  rw [take_apply]
  cases hahead : s.ahead with
  | nil => exact h₀
  | cons token rest => simpa [Cursor.kindAt, hahead] using h₁

/-- Eating a token of some kind leaves those of other kinds. -/
theorem leaves_eat (h : kind ∉ kinds) : Leaves kinds (eat kind) := by
  intro s
  rw [eat, bind_apply, isAt_apply]
  dsimp only
  split
  next hat => exact leaves_take (beq_iff_eq.1 hat ▸ h)
  next => exact .refl s

/-- Expecting a token of some kind leaves those of other kinds. -/
theorem leaves_expect {what : String} (h : kind ∉ kinds) : Leaves kinds (expect kind what) := by
  refine .bind (leaves_eat h) fun token => ?_
  cases token with
  | some token => exact .pure
  | none => exact .bind (leaves_reportMissing what) fun _ => .pure

/-- Skipping leaves what it stops at. -/
theorem leaves_skipTo (h : kinds ⊆ targets) : Leaves kinds (skipTo targets) := by
  intro s
  refine ⟨_, (passes_skipTo targets s).ahead, fun token hmem hkind => ?_⟩
  have hskipped := List.mem_takeWhile_imp hmem
  simp [h hkind] at hskipped

/-- Here it stops at one kind or another. -/
theorem leaves_skipUntil (h : kinds ⊆ targets ++ stops) : Leaves kinds (skipUntil stops targets) :=
  leaves_skipTo h

/-- Skipping past a token takes that one as well, so it must be of a kind that need not be left. -/
theorem leaves_skipPast (hkind : kind ∉ kinds) (h : kinds ⊆ stops) :
    Leaves kinds (skipPast stops kind) :=
  .bind (leaves_skipUntil (List.subset_append_of_subset_right _ h)) fun _ =>
    .discard (leaves_eat hkind)

/-! ## Parameters and signatures

The openers are the keywords of rules and sections. Each rule of the grammar is handed the kinds
where it has to stop; where these contain the openers, it leaves them. Only the type of a parameter
takes a token that it has not looked at, and there the bracket is known from outside. -/

theorem leaves_argument : Leaves openers argument := by
  intro s
  rw [argument, bind_apply, peek_apply]
  cases hterm : termOfToken? s.peek with
  | none =>
    exact Leaves.bind (leaves_reportUnexpected _)
      (fun _ => .bind leaves_missingRange fun _ => .pure) s
  | some term =>
    -- What has a term is no keyword.
    have hnext : s.kindAt 0 ∉ openers := by
      cases hahead : s.ahead with
      | nil => simp [Cursor.kindAt, hahead, openers, ruleStart, sectionKeywords]
      | cons token rest =>
        rw [show s.peek = token by simp [Cursor.peek, hahead]] at hterm
        rw [kindAt_zero_cons hahead]
        intro hmem
        simp only [openers, ruleStart, sectionKeywords, List.cons_append, List.nil_append,
          List.mem_cons, List.not_mem_nil, or_false] at hmem
        rcases hmem with hkind | hkind | hkind | hkind | hkind | hkind | hkind <;>
          simp [termOfToken?, hkind] at hterm
    have htaken : Leaves openers (pure ⟨term, s.peek.range⟩ : Parse Argument) := .pure
    dsimp only
    split
    · have hreported (d : Diagnostic) : s.Leaves openers (take (report d s).2).2 :=
        (leaves_report d s).trans (leaves_take hnext)
      exact (hreported _).trans (htaken _)
    · exact (leaves_take hnext).trans (htaken _)

theorem leaves_typeHint (h : openers ⊆ stops) (hat : s.kindAt 0 = .lParen) :
    s.Leaves openers (typeHint stops s).2 := by
  have hrest : Leaves openers (do
      let name ← expect .identifier "type name"
      if (← expect .rParen "closing bracket ')'").isNone then
        skipPast stops .rParen
      return (name.map (·.value)).getD "") := by
    refine .bind (leaves_expect (by decide)) fun _ => .bind (leaves_expect (by decide)) fun _ => ?_
    exact .ite (.bind (leaves_skipPast (by decide) h) fun _ => .pure) .pure
  have hnext : s.kindAt 0 ∉ openers := by
    rw [hat]
    decide
  exact (leaves_take hnext).trans (hrest _)

theorem leaves_flow : Leaves openers flow := by
  refine .bind (leaves_eat (by decide)) fun token => ?_
  cases token with
  | none => exact .pure
  | some token => exact .ite .pure (.ite .pure (.bind (leaves_report _) fun _ => .pure))

theorem leaves_parameter (h : openers ⊆ stops) : Leaves openers (parameter stops) := by
  refine .bind (.ranged (.bind leaves_flow fun flow s => ?_)) fun ⟨⟨_, _, _⟩, _⟩ => .pure
  have hrest {type : Option TypeHint} : Leaves openers (do return (flow, type, ← argument)) :=
    .bind leaves_argument fun _ => .pure
  rw [bind_apply, isAt_apply]
  dsimp only
  split
  next hat => exact (leaves_typeHint h (beq_iff_eq.1 hat)).trans (hrest _)
  next => exact hrest s

theorem leaves_unclosed (h : openers ⊆ stops) : Leaves openers (unclosed stops) :=
  .bind (leaves_reportMissing _) fun _ => leaves_skipPast (by decide) h

/-- A list of parameters leaves the openers at every turn. -/
theorem leaves_parameterList (h : openers ⊆ stops) (bound : Nat) :
    Leaves openers (parameterList stops bound) := by
  -- It gives up in front of any token that cannot start a parameter, and no opener can.
  induction bound with
  | zero => exact .pure
  | succ bound ih =>
    have hunclosed := leaves_unclosed h
    refine .bind leaves_isAtAny fun _ => .ite (.bind hunclosed fun _ => .pure) ?_
    refine .bind (leaves_parameter (List.subset_append_of_subset_right _ h)) fun _ => ?_
    refine .bind (leaves_eat (by decide)) fun _ => .ite (.bind ih fun _ => .pure) ?_
    exact .bind (leaves_eat (by decide)) fun _ => .ite (.bind hunclosed fun _ => .pure) .pure

theorem leaves_signature (h : openers ⊆ stops) : Leaves openers (signature stops) := by
  refine .bind (.ranged (.bind (leaves_expect (by decide)) fun first => ?_)) fun ⟨⟨_, _⟩, _⟩ => .pure
  cases first with
  | none => exact .bind leaves_missingRange fun _ => .pure
  | some first =>
    -- Whether the name has an owner or not, what follows it is the same.
    have hparameters (named : Identifier × List Parameter) : Leaves openers (do
        if (← expect .lParen "'('").isNone then
          return (named.1, named.2)
        if (← eat .rParen).isSome then
          return (named.1, named.2)
        return (named.1, named.2 ++ (← parameterList stops ((← get).ahead.length + 1)))) := by
      refine .bind (leaves_expect (by decide)) fun _ => .ite .pure ?_
      refine .bind (leaves_eat (by decide)) fun _ => .ite .pure ?_
      exact .bind leaves_get fun _ => .bind (leaves_parameterList h _) fun _ => .pure
    intro s
    dsimp only
    rw [bind_apply, isAt_apply, bind_apply, kindAt_apply]
    dsimp only
    split
    next hat =>
      obtain ⟨hdot, hname⟩ : s.kindAt 0 = .dot ∧ s.kindAt 1 = .identifier := by simpa using hat
      have htaken : s.Leaves openers (take (take s).2).2 :=
        leaves_takeTwo (by rw [hdot]; decide) (by rw [hname]; decide)
      exact htaken.trans (hparameters _ _)
    next => exact hparameters (.ofToken first, []) s

/-! ## Conditions and actions

A condition and an action leave the keywords that open rules and sections, and with them the place
where the reader may go on. -/

theorem leaves_comparison (h : openers ⊆ stops) : Leaves openers (comparison stops) := by
  refine .bind (leaves_parameter h) fun left s => ?_
  rw [bind_apply, kindAt_apply]
  dsimp only
  cases hoperator : Operator.ofKind? (s.kindAt 0) with
  | some operator =>
    have hnext : s.kindAt 0 ∉ openers := by
      intro hmem
      simp only [openers, ruleStart, sectionKeywords, List.cons_append, List.nil_append,
        List.mem_cons, List.not_mem_nil, or_false] at hmem
      rcases hmem with hkind | hkind | hkind | hkind | hkind | hkind | hkind <;>
        simp [hkind, Operator.ofKind?] at hoperator
    have hright : Leaves openers (do
        return Condition.Form.comparison operator left (.parameter (← parameter stops))) :=
      .bind (leaves_parameter h) fun _ => .pure
    exact (leaves_take hnext).trans (hright _)
  | none =>
    have hskip {value : Range → Condition.Form} :
        Leaves openers (do skipUntil stops []; return value (← missingRange)) :=
      .bind (leaves_skipUntil h) fun _ => .bind leaves_missingRange fun _ => .pure
    exact Leaves.bind leaves_isReportedHere
      (fun _ => .ite (.bind (leaves_reportUnexpected _) fun _ => hskip) hskip) s

theorem leaves_condition (h : openers ⊆ stops) : Leaves openers (condition stops) := by
  refine .bind (.ranged (.bind (leaves_eat (by decide)) fun _ => .ite ?_ ?_)) fun ⟨_, _⟩ => .pure
  · exact .bind (leaves_signature h) fun _ => .pure
  · refine .bind leaves_isAt fun _ => .bind (leaves_kindAt 1) fun _ => ?_
    exact .ite (.bind (leaves_signature h) fun _ => .pure) (leaves_comparison h)

theorem leaves_conditionBlock (h : openers ⊆ stops) : Leaves openers (conditionBlock stops) := by
  refine .bind (.ranged (.many (.bind (leaves_eat (by decide)) fun _ => .ite ?_ .pure)))
    fun ⟨_, _⟩ => .pure
  exact .bind (leaves_condition (List.subset_cons_of_subset _ h)) fun _ => .pure

theorem leaves_action : Leaves openers (action sectionKeywords ruleStart) := by
  refine .bind (.ranged (.bind (leaves_eat (by decide)) fun _ => .ite ?_ ?_)) fun ⟨_, _⟩ => .pure
  · exact .bind (leaves_expect (by decide)).discard fun _ => .pure
  · refine .bind (leaves_eat (by decide)) fun _ => .bind (leaves_signature (by decide)) fun _ => ?_
    refine .bind (leaves_expect (by decide)) fun _ => .ite (.bind leaves_isAtAny fun _ => ?_) .pure
    refine .ite (.bind (leaves_skipUntil (by decide)) fun _ => ?_) .pure
    exact .bind (leaves_eat (by decide)).discard fun _ => .pure

/-! ## Repetition

A loop has a bound on its turns. It never runs out if each turn takes a token, and then the loop
ends in one way only: its step declines. -/

/-- A step to be taken over and over: it takes a token, or it declines and nothing happens. -/
structure Progresses (step : Parse (Option (List α))) : Prop where
  stays : ∀ s, (step s).1 = none → (step s).2 = s
  shortens : ∀ s found, (step s).1 = some found → (step s).2.ahead.length < s.ahead.length

section Repetition

variable {step : Parse (Option (List α))}

/-- With nothing left to take, a step declines. -/
theorem Progresses.declines (hstep : Progresses step) (hnone : s.ahead = []) : (step s).1 = none := by
  cases hfound : (step s).1 with
  | none => rfl
  | some found =>
    have hshort := hstep.shortens s found hfound
    simp [hnone] at hshort

/-- A run of steps ends with one that declines, and what each step does tells what the run does. -/
theorem Progresses.many_induction (hstep : Progresses step)
    {motive : Cursor → List α → Cursor → Prop}
    (hend : ∀ s, (step s).1 = none → motive s [] s)
    (hmore : ∀ s found more s', (step s).1 = some found → motive (step s).2 more s' →
      motive s (found ++ more) s')
    (s : Cursor) : motive s (many step s).1 (many step s).2 := by
  have hrun : ∀ bound (s : Cursor), s.ahead.length ≤ bound →
      motive s (repeatUpTo step bound s).1 (repeatUpTo step bound s).2 := by
    intro bound
    induction bound with
    | zero =>
      intro s hbound
      exact hend s (hstep.declines (List.length_eq_zero_iff.1 (Nat.le_zero.1 hbound)))
    | succ bound ih =>
      intro s hbound
      rw [repeatUpTo, bind_apply]
      cases hfound : (step s).1 with
      | none =>
        rw [hstep.stays s hfound]
        exact hend s hfound
      | some found =>
        have hshort := hstep.shortens s found hfound
        exact hmore s found _ _ hfound (ih _ (by omega))
  exact hrun _ s (Nat.le_refl _)

/-- Behind a run of steps the next one would decline. -/
theorem Progresses.many_declines (hstep : Progresses step) (s : Cursor) :
    (step (many step s).2).1 = none :=
  hstep.many_induction (motive := fun _ _ s' => (step s').1 = none) (fun _ h => h)
    (fun _ _ _ _ _ h => h) s

end Repetition

/-! ### Taking at least a token

What ends the loops: an action and a rule start with a token that they take. -/

/-- If the first of two steps takes a token, both together do. -/
theorem shortens_bind (hp : (p s).2.ahead.length < s.ahead.length) (hf : ∀ a, Advances (f a)) :
    ((p >>= f) s).2.ahead.length < s.ahead.length :=
  Nat.lt_of_le_of_lt (hf _ _).length_le hp

/-- Taking a token takes one, unless there is none. -/
theorem shortens_take (hne : s.ahead ≠ []) : (take s).2.ahead.length < s.ahead.length := by
  obtain ⟨token, rest, hahead⟩ := List.exists_cons_of_ne_nil hne
  simp [take_apply, hahead]

/-- A token that is not the end of the text is one of those that are left. -/
theorem ahead_ne_nil (hne : s.kindAt 0 ≠ .endOfFile) : s.ahead ≠ [] := by
  intro hnone
  simp [Cursor.kindAt, hnone] at hne

/-- Eating a token that is there takes one. -/
theorem shortens_eat (hat : s.kindAt 0 = kind) (hkind : kind ≠ .endOfFile) :
    (eat kind s).2.ahead.length < s.ahead.length := by
  rw [eat, bind_apply, isAt_apply]
  simp only [hat, beq_self_eq_true, if_true]
  exact shortens_take (ahead_ne_nil (hat ▸ hkind))

/-- Expecting a token that is there takes one. -/
theorem shortens_expect (what : String) (hat : s.kindAt 0 = kind) (hkind : kind ≠ .endOfFile) :
    (expect kind what s).2.ahead.length < s.ahead.length := by
  refine shortens_bind (shortens_eat hat hkind) fun token => ?_
  cases token with
  | some token => exact .pure
  | none => exact .bind (advances_reportMissing what) fun _ => .pure

/-- The range of a step changes nothing about it. -/
theorem shortens_ranged (hp : (p s).2.ahead.length < s.ahead.length) :
    (ranged p s).2.ahead.length < s.ahead.length := hp

/-- A signature takes at least its name. -/
theorem shortens_signature (hat : s.kindAt 0 = .identifier) :
    (signature stops s).2.ahead.length < s.ahead.length := by
  have hname := shortens_expect "symbol name" hat (by decide)
  refine shortens_bind (shortens_ranged (shortens_bind hname fun first => ?_))
    fun ⟨⟨_, _⟩, _⟩ => .pure
  cases first with
  | none => exact .bind advances_missingRange fun _ => .pure
  | some first =>
    refine .bind advances_isAt fun _ => .bind (advances_kindAt 1) fun _ => ?_
    refine .ite (.bind advances_take.discard fun _ => .bind advances_take fun _ =>
      .bind .pure fun ⟨_, _⟩ => ?_) (.bind .pure fun ⟨_, _⟩ => ?_)
    all_goals
      refine .bind advances_expect fun _ => .ite .pure ?_
      refine .bind advances_eat fun _ => .ite .pure ?_
      exact .bind advances_get fun _ => .bind (advances_parameterList _) fun _ => .pure

/-- An action takes at least the token that it starts with. -/
theorem shortens_action {stop : KindSet} (hat : s.kindAt 0 ∈ actionStart) :
    (action stops stop s).2.ahead.length < s.ahead.length := by
  -- What follows the start of an action only advances, so that the start is all there is to look
  -- at: it takes a token in each of the cases.
  have hsemicolon (signature : Signature) (negated : Bool) : Advances (do
      if (← expect .semicolon "';'").isNone then
        if !(← isAtAny actionStart) then
          skipUntil stops (.semicolon :: stop)
          discard (eat .semicolon)
      return Action.Form.call signature negated) := by
    refine .bind advances_expect fun _ => .ite (.bind advances_isAtAny fun _ => .ite ?_ .pure) .pure
    exact .bind advances_skipUntil fun _ => .bind advances_eat.discard fun _ => .pure
  have hcall (negated : Option Token) : Advances (do
      let signature ← signature (.semicolon :: stop ++ stops)
      if (← expect .semicolon "';'").isNone then
        if !(← isAtAny actionStart) then
          skipUntil stops (.semicolon :: stop)
          discard (eat .semicolon)
      return Action.Form.call signature negated.isSome) :=
    .bind advances_signature fun _ => hsemicolon _ _
  refine shortens_bind (shortens_ranged ?_) fun ⟨_, _⟩ => .pure
  simp only [actionStart, List.mem_cons, List.not_mem_nil, or_false] at hat
  rcases hat with hat | hat | hat
  · rw [bind_apply, eat_of_ne (by simp [hat])]
    simp only [Option.isSome_none, Bool.false_eq_true, if_false]
    rw [bind_apply, eat_of_ne (by simp [hat])]
    exact shortens_bind (shortens_signature hat) fun _ => hsemicolon _ _
  · rw [bind_apply, eat_of_ne (by simp [hat])]
    simp only [Option.isSome_none, Bool.false_eq_true, if_false]
    exact shortens_bind (shortens_eat hat (by decide)) hcall
  · refine shortens_bind (shortens_eat hat (by decide)) fun _ => .ite ?_ (.bind advances_eat hcall)
    exact .bind advances_expect.discard fun _ => .pure

/-! ## Lists of items

The actions of a block and the rules of a section are read by loops of one shape: stop at some
kinds, read an item at others, and pass over anything else with a report. -/

/-- A step of a list of items: in front of one of `ends` the list is over, in front of one of
`starts` stands an item, and anything else is passed over up to where something known comes. -/
def listStep (ends starts : KindSet) (item : Parse α) (expected : String)
    (stops targets : KindSet) : Parse (Option (List α)) := do
  if ← isAtAny ends then
    return none
  if ← isAtAny starts then
    return some [← item]
  reportUnexpected expected
  discard take
  skipUntil stops targets
  return some []

section Lists

variable {ends starts : KindSet} {item : Parse α} {expected : String}

/-- The step of a list declines where the list ends. -/
theorem listStep_of_end (h : s.kindAt 0 ∈ ends) :
    listStep ends starts item expected stops targets s = (none, s) := by
  rw [listStep, bind_apply, isAtAny_apply]
  simp only [List.contains_eq_mem, h, decide_true, if_true]
  rfl

/-- The step of a list reads an item where one starts. -/
theorem listStep_of_start (hend : s.kindAt 0 ∉ ends) (h : s.kindAt 0 ∈ starts) :
    listStep ends starts item expected stops targets s = (some [(item s).1], (item s).2) := by
  rw [listStep, bind_apply, isAtAny_apply]
  simp only [List.contains_eq_mem, hend, decide_false, Bool.false_eq_true, if_false]
  rw [bind_apply, isAtAny_apply]
  simp only [List.contains_eq_mem, h, decide_true, if_true]
  rfl

/-- Any other token is passed over, with whatever follows it up to the next item. -/
theorem listStep_of_other (hend : s.kindAt 0 ∉ ends) (h : s.kindAt 0 ∉ starts) :
    listStep ends starts item expected stops targets s =
      (some [], (skipUntil stops targets (take (reportUnexpected expected s).2).2).2) := by
  rw [listStep, bind_apply, isAtAny_apply]
  simp only [List.contains_eq_mem, hend, decide_false, Bool.false_eq_true, if_false]
  rw [bind_apply, isAtAny_apply]
  simp only [List.contains_eq_mem, h, decide_false, Bool.false_eq_true, if_false]
  rfl

/-- The step declines in the first case only. -/
theorem listStep_eq_none_iff :
    (listStep ends starts item expected stops targets s).1 = none ↔ s.kindAt 0 ∈ ends := by
  refine ⟨fun hnone => ?_, fun hend => by rw [listStep_of_end hend]⟩
  by_contra hend
  by_cases hstart : s.kindAt 0 ∈ starts
  · simp [listStep_of_start hend hstart] at hnone
  · simp [listStep_of_other hend hstart] at hnone

/-- A step that does not decline takes a token, for an item does and passing over does. -/
theorem progresses_listStep (hends : .endOfFile ∈ ends)
    (hitem : ∀ s, s.kindAt 0 ∈ starts → (item s).2.ahead.length < s.ahead.length) :
    Progresses (listStep ends starts item expected stops targets) := by
  constructor
  · intro s hnone
    rw [listStep_of_end (listStep_eq_none_iff.1 hnone)]
  · intro s found hfound
    by_cases hend : s.kindAt 0 ∈ ends
    · simp [listStep_of_end hend] at hfound
    by_cases hstart : s.kindAt 0 ∈ starts
    · rw [listStep_of_start hend hstart]
      exact hitem s hstart
    · rw [listStep_of_other hend hstart]
      have hne : s.ahead ≠ [] := ahead_ne_nil fun hat => hend (hat ▸ hends)
      have htaken : (take (reportUnexpected expected s).2).2.ahead.length < s.ahead.length :=
        shortens_take (s := (reportUnexpected expected s).2) hne
      exact Nat.lt_of_le_of_lt (advances_skipUntil _).length_le htaken

/-- Where a list is over, one of its ends is next. -/
theorem kindAt_many_listStep (hstep : Progresses (listStep ends starts item expected stops targets))
    (s : Cursor) :
    (many (listStep ends starts item expected stops targets) s).2.kindAt 0 ∈ ends :=
  listStep_eq_none_iff.1 (hstep.many_declines s)

/-- What is passed over takes none of the tokens that something known starts with. -/
theorem leaves_passOver (h : kinds ⊆ targets ++ stops) (hnext : s.kindAt 0 ∉ kinds) :
    s.Leaves kinds (skipUntil stops targets (take (reportUnexpected expected s).2).2).2 := by
  have htaken : s.Leaves kinds (take (reportUnexpected expected s).2).2 :=
    (leaves_reportUnexpected expected s).trans (leaves_take hnext)
  exact htaken.trans (leaves_skipUntil h _)

/-- It leaves the kinds that end the list or that passing over stops at, if its items leave them. -/
theorem leaves_listStep (hends : kinds ⊆ ends) (htargets : kinds ⊆ targets ++ stops)
    (hitem : ∀ s : Cursor, s.kindAt 0 ∈ starts → s.Leaves kinds (item s).2) :
    Leaves kinds (listStep ends starts item expected stops targets) := by
  intro s
  by_cases hend : s.kindAt 0 ∈ ends
  · rw [listStep_of_end hend]
    exact .refl s
  by_cases hstart : s.kindAt 0 ∈ starts
  · rw [listStep_of_start hend hstart]
    exact hitem s hstart
  · rw [listStep_of_other hend hstart]
    exact leaves_passOver htargets fun hmem => hend (hends hmem)

end Lists

/-! ## Actions and rules

The two lists, and the rule between them. A rule starts with its keyword, which is taken, and leaves
the openers behind that. -/

/-- Actions make up a list that is over at the next rule or section. -/
theorem actionBlock_eq (stops stop : KindSet) :
    actionBlock stops stop = (do
      let (actions, range) ← ranged <| many <|
        listStep (.endOfFile :: stop ++ stops) actionStart (action stops stop) "action" stops
          (actionStart ++ stop)
      return ⟨actions, range⟩) := by
  unfold actionBlock listStep
  congr 3
  funext s
  rw [bind_apply, isAtAny_apply, bind_apply, isAtStop_apply, bind_apply, isAtAny_apply]
  simp only [List.contains_eq_mem, List.cons_append, List.mem_cons, List.mem_append]
  grind

/-- Rules make up a list that is over at the next section. -/
theorem rules_eq (stops : KindSet) :
    rules stops = many (listStep (.endOfFile :: stops) ruleStart (rule stops)
      "rule (IF, PROC or QRY)" stops ruleStart) := rfl

/-- A list of actions takes a token at every turn. -/
theorem progresses_actions (stops stop : KindSet) :
    Progresses (listStep (.endOfFile :: stop ++ stops) actionStart (action stops stop) "action"
      stops (actionStart ++ stop)) :=
  progresses_listStep (by simp) fun _ => shortens_action

/-- A block of actions leaves the openers. -/
theorem leaves_actionBlock : Leaves openers (actionBlock sectionKeywords ruleStart) := by
  rw [actionBlock_eq]
  refine .bind (.ranged (.many (leaves_listStep ?_ (by decide) fun s _ => leaves_action s)))
    fun ⟨_, _⟩ => .pure
  exact List.subset_cons_self _ _

/-- Actions are over at the next rule or section, or at the end of the text. -/
theorem kindAt_actionBlock (s : Cursor) :
    (actionBlock sectionKeywords ruleStart s).2.kindAt 0 ∈ .endOfFile :: openers := by
  rw [actionBlock_eq]
  exact kindAt_many_listStep (progresses_actions sectionKeywords ruleStart) s

/-- Actions go up to the next rule or section, whatever stands in front of it. -/
theorem ahead_actionBlock (hahead : s.ahead = stretch ++ token :: rest)
    (hkind : token.kind ∈ openers)
    (hstretch : ∀ t ∈ stretch, t.kind ∉ TokenKind.endOfFile :: openers) :
    (actionBlock sectionKeywords ruleStart s).2.ahead = token :: rest := by
  obtain ⟨passed, left, rfl, hleft, -⟩ := (leaves_actionBlock s).split hahead hkind
  cases left with
  | nil => exact hleft
  | cons first left =>
    have hend := kindAt_actionBlock s
    rw [kindAt_zero_cons hleft] at hend
    exact absurd hend (hstretch first (by simp))

/-- Actions are reported if there are none, and nothing is taken for that. -/
theorem leaves_nonemptyBlock {message : String} {result : ActionBlock → α} :
    Leaves openers (do
      let actions ← actionBlock sectionKeywords ruleStart
      if actions.actions.isEmpty then
        report (.warning .emptyActionBlock message actions.range.span)
      return result actions) :=
  .bind leaves_actionBlock fun _ => .ite (.bind (leaves_report _) fun _ => .pure) .pure

/-- What follows the keyword of a rule. -/
def ruleBody (stops : KindSet) (keyword : Token) : Parse (Range → Rule) := do
  let head ← signature ([.then, .and] ++ ruleStart ++ stops)
  let conditions ← conditionBlock (.then :: ruleStart ++ stops)
  if (← expect .then "'THEN'").isNone then
    if !((← isAt .identifier) && (← kindAt 1) == .lParen) then
      skipUntil stops (.then :: ruleStart)
      discard (eat .then)
  let actions ← actionBlock stops ruleStart
  if actions.actions.isEmpty then
    report (.warning .emptyActionBlock "Rule has no actions; use DB_NOOP(1); as a no-op"
      actions.range.span)
  return fun range =>
    { kind := ruleKind keyword.kind
      head, conditions, actions
      region := keyword.region
      comment := keyword.comment
      range }

/-- A rule is its keyword and its body, with the range of both. -/
theorem rule_apply (stops : KindSet) (s : Cursor) :
    rule stops s =
      let (keyword, s₁) := take s
      let (build, s') := ruleBody stops keyword s₁
      (build (s.rangeTo s'), s') := rfl

/-- What follows the keyword of a rule takes no other keyword. -/
theorem leaves_ruleBody (keyword : Token) : Leaves openers (ruleBody sectionKeywords keyword) := by
  refine .bind (leaves_signature (by decide)) fun _ => ?_
  refine .bind (leaves_conditionBlock (by decide)) fun _ => ?_
  refine .bind (leaves_expect (by decide)) fun _ => .ite ?_ leaves_nonemptyBlock
  refine .bind leaves_isAt fun _ => .bind (leaves_kindAt 1) fun _ => .ite ?_ leaves_nonemptyBlock
  refine .bind (leaves_skipUntil (by decide)) fun _ => ?_
  exact .bind (leaves_eat (by decide)).discard fun _ => leaves_nonemptyBlock

/-- A rule leaves the openers behind its keyword. -/
theorem leaves_rule (s : Cursor) : (take s).2.Leaves openers (rule sectionKeywords s).2 := by
  have hbody := leaves_ruleBody (take s).1 (take s).2
  rw [rule_apply]
  generalize take s = taken at *
  obtain ⟨keyword, s₁⟩ := taken
  dsimp only at hbody ⊢
  generalize ruleBody sectionKeywords keyword s₁ = result at *
  obtain ⟨build, s'⟩ := result
  exact hbody

/-- It takes its keyword at least. -/
theorem shortens_rule (hat : s.kindAt 0 ∈ ruleStart) :
    (rule sectionKeywords s).2.ahead.length < s.ahead.length := by
  have htaken : (take s).2.ahead.length < s.ahead.length := by
    refine shortens_take (ahead_ne_nil fun hend => ?_)
    rw [hend] at hat
    exact absurd hat (by decide)
  obtain ⟨taken, hahead, -⟩ := leaves_rule s
  rw [hahead, List.length_append] at htaken
  omega

/-- A list of rules takes a token at every turn. -/
theorem progresses_rules : Progresses (listStep (.endOfFile :: sectionKeywords) ruleStart
    (rule sectionKeywords) "rule (IF, PROC or QRY)" sectionKeywords ruleStart) :=
  progresses_listStep (by simp) fun _ => shortens_rule

/-! ## Rules and their keywords

What is read of a stretch of tokens, rule by rule. Every keyword opens a rule, since none is taken
by the rule before it, and every rule is opened by one, since nothing else starts an item. -/

/-- A rule stands where its keyword does. -/
structure OpensAt (rule : Rule) (keyword : Token) : Prop where
  kind : rule.kind = ruleKind keyword.kind
  start : rule.range.span.start = keyword.range.span.start
  first : rule.range.first = keyword.range.first

/-- What a step gives, whatever comes before its end. -/
def Gives (p : Parse α) (good : α → Prop) : Prop := ∀ s, good (p s).1

/-- A property of the value that is given back. -/
theorem Gives.pure {good : α → Prop} {a : α} (h : good a) : Gives (Pure.pure a) good := fun _ => h

/-- What two steps give is a matter of the second. -/
theorem Gives.bind {good : β → Prop} (h : ∀ a, Gives (f a) good) : Gives (p >>= f) good :=
  fun _ => h _ _

/-- A property that both of two steps give. -/
theorem Gives.ite {good : α → Prop} {c : Prop} [Decidable c] {q : Parse α} (hp : Gives p good)
    (hq : Gives q good) : Gives (if c then p else q) good := by
  split
  · exact hp
  · exact hq

/-- The kind of a rule is that of its keyword, whatever is read behind. -/
theorem gives_ruleBody (stops : KindSet) (keyword : Token) :
    Gives (ruleBody stops keyword) fun build => ∀ range,
      (build range).kind = ruleKind keyword.kind ∧ build range = { build default with range } := by
  refine .bind fun _ => .bind fun _ => .bind fun _ => ?_
  refine .ite (.bind fun _ => .bind fun _ => .ite (.bind fun _ => .bind fun _ => ?_) ?_) ?_
  all_goals
    refine .bind fun _ => .ite (.bind fun _ => ?_) ?_
    all_goals exact .pure fun _ => ⟨rfl, rfl⟩

/-- A rule that starts at a token has its place and its kind from there. -/
theorem opensAt_rule (hahead : s.ahead = token :: rest) :
    OpensAt (rule sectionKeywords s).1 token := by
  have hpeek : s.peek = token := by simp [Cursor.peek, hahead]
  have hgives := gives_ruleBody sectionKeywords token { s with ahead := rest, last := token }
  have hleaves := leaves_ruleBody token { s with ahead := rest, last := token }
  rw [rule_apply, take_apply, hahead]
  dsimp only
  generalize ruleBody sectionKeywords token _ = result at *
  obtain ⟨build, s'⟩ := result
  obtain ⟨taken, htaken, -⟩ := hleaves
  have hshort : s'.ahead.length < s.ahead.length := by
    have hlength := congrArg List.length htaken
    simp only [hahead, List.length_append, List.length_cons] at hlength ⊢
    omega
  obtain ⟨hkind, hbuild⟩ := hgives (s.rangeTo s')
  have hrange : (build (s.rangeTo s')).range = s.rangeTo s' := congrArg Rule.range hbuild
  have hfrom : s.rangeTo s' = _ := if_pos hshort
  exact ⟨hkind, by rw [hrange, hfrom, hpeek], by rw [hrange, hfrom, hpeek]⟩

/-- Among tokens that are left alone there are no rules. -/
theorem filter_ruleStart_of_passed {passed left : List Token}
    (hpassed : ∀ t ∈ passed, t.kind ∉ openers) :
    (passed ++ left).filter (fun t => t.kind ∈ ruleStart)
      = left.filter fun t => t.kind ∈ ruleStart := by
  rw [List.filter_append, List.filter_eq_nil_iff.2, List.nil_append]
  intro t hmem
  simpa using fun hstart => hpassed t hmem (List.mem_append_left _ hstart)

/-- **There is one rule for each keyword**, however bad the tokens between them are. -/
theorem rules_of_stretch (s : Cursor) (stretch : List Token)
    (hahead : s.ahead = stretch ++ token :: rest) (hkind : token.kind ∈ sectionKeywords)
    (hstretch : ∀ t ∈ stretch, t.kind ∉ TokenKind.endOfFile :: sectionKeywords) :
    (rules sectionKeywords s).2.ahead = token :: rest
      ∧ List.Forall₂ OpensAt (rules sectionKeywords s).1
          (stretch.filter fun t => t.kind ∈ ruleStart) := by
  rw [rules_eq]
  -- The induction is on the turns of the loop. The stretch is generalised, for each turn leaves the
  -- rest of it.
  refine progresses_rules.many_induction (motive := fun s found s' => ∀ stretch,
    s.ahead = stretch ++ token :: rest →
      (∀ t ∈ stretch, t.kind ∉ TokenKind.endOfFile :: sectionKeywords) →
      s'.ahead = token :: rest
        ∧ List.Forall₂ OpensAt found (stretch.filter fun t => t.kind ∈ ruleStart))
    ?_ ?_ s stretch hahead hstretch
  · intro s hnone stretch hahead hstretch
    cases stretch with
    | nil => exact ⟨hahead, .nil⟩
    | cons first stretch =>
      -- The rules go on in front of a token of the stretch.
      have hend := listStep_eq_none_iff.1 hnone
      rw [kindAt_zero_cons hahead] at hend
      exact absurd hend (hstretch first List.mem_cons_self)
  · intro s found more s' hfound ih stretch hahead hstretch
    cases stretch with
    | nil =>
      have hend : s.kindAt 0 ∈ TokenKind.endOfFile :: sectionKeywords := by
        rw [kindAt_zero_cons hahead]
        exact List.mem_cons_of_mem _ hkind
      rw [listStep_of_end hend] at hfound
      cases hfound
    | cons first stretch =>
      have hnext : s.kindAt 0 = first.kind := kindAt_zero_cons hahead
      have hend : s.kindAt 0 ∉ TokenKind.endOfFile :: sectionKeywords :=
        hnext ▸ hstretch first List.mem_cons_self
      by_cases hstart : s.kindAt 0 ∈ ruleStart
      · rw [listStep_of_start hend hstart] at hfound ih
        obtain rfl := Option.some.inj hfound
        have htaken : (take s).2.ahead = stretch ++ token :: rest := by simp [take_apply, hahead]
        obtain ⟨passed, left, rfl, hleft, hpassed⟩ :=
          (leaves_rule s).split htaken (List.mem_append_right _ hkind)
        obtain ⟨hrest, hrules⟩ := ih left hleft fun t hmem =>
          hstretch t (List.mem_cons_of_mem _ (List.mem_append_right _ hmem))
        refine ⟨hrest, ?_⟩
        rw [List.filter_cons_of_pos (by simpa [hnext] using hstart), filter_ruleStart_of_passed hpassed]
        exact .cons (opensAt_rule hahead) hrules
      · rw [listStep_of_other hend hstart] at hfound ih
        obtain rfl := Option.some.inj hfound
        have hnone : s.kindAt 0 ∉ openers := fun hmem => (List.mem_append.1 hmem).elim hstart
          fun hsection => hend (List.mem_cons_of_mem _ hsection)
        have hleaves : s.Leaves openers (skipUntil sectionKeywords ruleStart
            (take (reportUnexpected "rule (IF, PROC or QRY)" s).2).2).2 :=
          leaves_passOver (List.Subset.refl _) hnone
        obtain ⟨passed, left, hstretched, hleft, hpassed⟩ :=
          hleaves.split hahead (List.mem_append_right _ hkind)
        rw [hstretched] at hstretch ⊢
        rw [filter_ruleStart_of_passed hpassed]
        exact ih left hleft fun t hmem => hstretch t (List.mem_append_right _ hmem)

end Parse
end StoryCheck.Syntax
