import Mathlib.Data.List.Forall2
import StoryCheck.Proofs.Syntax.Acceptance
import StoryCheck.Proofs.Syntax.Framing
import StoryCheck.Proofs.Syntax.HeaderReports
import StoryCheck.Proofs.Syntax.Recovery

/-!
# Damaged goals

What is left of a goal when some of its tokens are garbage.

* **`damage_stays_in_knowledge_base`** — garbage between KBSECTION and EXITSECTION does no harm
  outside it, and still makes one rule of each keyword that it contains.
* **`rules_are_kept_iff`** — garbage in front of KBSECTION takes the rules away unless it is made up
  of options in front of INITSECTION and free of rule keywords behind it.
-/

namespace StoryCheck

/-- A token stops where those behind it have not started yet. -/
theorem TokenList.Ordered.stop_le_start {list : TokenList} {start : Nat}
    {before after : List Token} {a b : Token} (h : list.Ordered start)
    (hsplit : list.tokens = before ++ a :: after) (hmem : b ∈ after) :
    a.range.span.stop ≤ b.range.span.start := by
  have hpairwise := h.pairwise
  rw [TokenList.all, hsplit, List.append_assoc, List.cons_append] at hpairwise
  exact (List.pairwise_cons.1 (List.pairwise_append.1 hpairwise).2.1).1 b
    (List.mem_append_left _ hmem)

/-- A token of a text on one line, in which every character takes one byte. -/
def Token.onLine (kind : TokenKind) (value : String) (start : Nat) : Token :=
  let stop := start + value.length
  { kind, value, range := ⟨⟨start, stop⟩, start, stop⟩ }

/-- Other tokens in place of those of a text. -/
def TokenList.withTokens (list : TokenList) (tokens : List Token) : TokenList :=
  { list with tokens }

namespace Syntax

open Cursor Parse

/-! ## The parts of a goal

A goal with other tokens in place of its rules, or with garbage in front of them. -/

namespace WrittenGoal

/-- The tokens of a goal with others in place of its rules. -/
def around (goal : WrittenGoal) (stretch : List Token) : List Token :=
  goal.front ++ stretch ++ goal.back

theorem around_eq_kbSection (goal : WrittenGoal) (stretch : List Token) :
    goal.around stretch = (goal.header.flatMap (·.tokens)
      ++ goal.initSection.1 :: goal.init.flatMap (·.tokens))
      ++ goal.kbSection.1 :: (stretch ++ goal.back) := by
  simp [around, front]

/-- The tokens of a goal with others in place of its options and of its INIT section. -/
def behind (goal : WrittenGoal) (before between : List Token) : List Token :=
  before ++ goal.initSection.1 :: (between ++ goal.kbSection.1 :: (goal.rules.flatMap (·.tokens)
    ++ goal.back))

theorem tokens_eq_around (goal : WrittenGoal) :
    goal.tokens = goal.around (goal.rules.flatMap (·.tokens)) := by
  rw [tokens_eq, around, List.append_assoc]

/-- Without rules a goal is its front and its back. -/
theorem tokens_of_no_rules (goal : WrittenGoal) :
    { goal with rules := [] }.tokens = goal.around [] := tokens_eq_around _

end WrittenGoal

namespace Parse

variable {s s' : Cursor} {found : List Diagnostic}

theorem frames_goalBack : Frames goalBack :=
  .bind frames_expect.discard fun _ => .bind frames_actionBlock fun _ =>
    .bind frames_expect.discard fun _ => .bind frames_footerOptions fun _ => .pure

end Parse

/-! ## Damage between the rules

A section keyword ends whatever is being read. So the EXIT section is found, whatever stands between
the rules. -/

/-- With any tokens in place of its rules, a goal is read as written in front of them and behind
them, and what is reported starts at one of them or at the end of the stretch. -/
theorem goal_of_around {list : TokenList} {w : WrittenGoal} {stretch : List Token}
    (htokens : list.tokens = w.around stretch)
    (hstretch : ∀ t ∈ stretch, t.kind ∉ TokenKind.endOfFile :: sectionKeywords) :
    ∃ rules range after, goal (ofTokens list) = ({ w.tree with rules, range }, after)
        ∧ (∀ d ∈ after.reports, ∃ token ∈ stretch ++ [w.exitSection.1],
            d.span.start = token.range.span.start)
        ∧ List.Forall₂ OpensAt rules (stretch.filter fun t => t.kind ∈ ruleStart) := by
  obtain ⟨s₁, hfront, hrest⟩ := takes_append_iff.1
    (show (ofTokens list).Takes (w.front ++ (stretch ++ w.back)) _ from
      takes_all (by rw [htokens, WrittenGoal.around, List.append_assoc]))
  have hs₁ : s₁.ahead = stretch ++ w.back := by simpa using hrest.passes.ahead
  have hexit : w.exitSection.1.kind ∈ sectionKeywords := by simp [w.exitSection.2, sectionKeywords]
  obtain ⟨hs₂, hrules⟩ := rules_of_stretch s₁ stretch hs₁ hexit hstretch
  have hadvances : Advances (rules sectionKeywords) := advances_rules
  obtain ⟨taken, found, hpasses⟩ := hadvances s₁
  generalize hrun : rules sectionKeywords s₁ = result at hs₂ hrules hpasses
  obtain ⟨rules, s₂⟩ := result
  dsimp only at hs₂ hrules hpasses
  obtain rfl : taken = stretch := by
    have hahead := hpasses.ahead
    rw [hs₁, hs₂] at hahead
    exact (List.append_cancel_right hahead).symm
  -- Behind the rules there are reports, which change nothing for what was written.
  have hback : (s₂.reporting []).Takes w.back
      { s₂.reporting [] with ahead := [], last := w.back.getLast?.getD s₂.last } :=
    ⟨passes_skip (by rw [List.append_nil]; exact hs₂), rfl⟩
  have hlast := frames_goalBack.run (reads_goalBack w rfl hback)
  rw [goal_apply, (reads_goalFront w hfront).run]
  dsimp only
  rw [hrun]
  dsimp only
  rw [hlast]
  refine ⟨rules, _, _, rfl, fun d hd => ?_, hrules⟩
  have hreports : s₂.reports = found := by
    rw [hpasses.reports, hfront.clean_end, List.nil_append]
  obtain ⟨token, hmem, hstart⟩ := hpasses.places d (hreports ▸ hd)
  have hpeek : s₂.peek = w.exitSection.1 := by simp [Cursor.peek, hs₂]
  exact ⟨token, hpeek ▸ hmem, hstart⟩

/-- **Damage between the rules stays there.** Whatever stands between KBSECTION and EXITSECTION, the
options and the sections are those of the goal without it, the grammar reports nothing in front of
the stretch or behind its end, and there is one rule for each keyword in it. -/
theorem damage_stays_in_knowledge_base (text : String) (w : WrittenGoal) (stretch : List Token)
    (htokens : (TokenList.ofText text).tokens = w.around stretch)
    (hstretch : ∀ t ∈ stretch, t.kind ∉ sectionKeywords) :
    let parsed := parseGoal text
    let emptied := parseGoalTokens ((TokenList.ofText text).withTokens (w.around []))
    parsed.tree.options = emptied.tree.options ∧ parsed.tree.init = emptied.tree.init
      ∧ parsed.tree.exit = emptied.tree.exit
      ∧ (∃ found, parsed.diagnostics
            = Diagnostic.sortBySpan ((TokenList.ofText text).reports ++ found)
          ∧ ∀ d ∈ found, w.kbSection.1.range.span.stop ≤ d.span.start
            ∧ d.span.start ≤ w.exitSection.1.range.span.start)
      ∧ List.Forall₂ OpensAt parsed.tree.rules (stretch.filter fun t => t.kind ∈ ruleStart) := by
  intro parsed emptied
  have hordered := TokenList.ordered_ofText text
  have hkinds := (TokenList.kind_ofText text).1
  have hnone : ∀ t ∈ stretch, t.kind ∉ TokenKind.endOfFile :: sectionKeywords := by
    intro t hmem
    have hkind := (hkinds t (by simp [htokens, WrittenGoal.around, hmem])).1
    simp [hkind, hstretch t hmem]
  -- The stretch is read between the two keywords; what stands in front of these and behind them is
  -- read as in the goal without rules.
  obtain ⟨rules, range, after, hrun, hplaces, hrules⟩ := goal_of_around htokens hnone
  have hparsed : parsed = _ := parseGoalTokens_of_run hrun
  have hbare : ((TokenList.ofText text).withTokens (w.around [])).tokens
      = { w with rules := [] }.tokens := w.tokens_of_no_rules.symm
  obtain ⟨_, hemptied, -⟩ := goal_run_written _ hbare
  have hemptied : emptied = _ := parseGoalTokens_of_run hemptied
  rw [hparsed, hemptied]
  refine ⟨rfl, rfl, rfl, ⟨after.reports, rfl, fun d hd => ?_⟩, hrules⟩
  obtain ⟨token, hmem, hstart⟩ := hplaces d hd
  rw [hstart]
  -- A report is at a token passed in the knowledge base, or at the keyword that ends it.
  constructor
  · refine hordered.stop_le_start (b := token) (by rw [htokens, w.around_eq_kbSection]) ?_
    rcases List.mem_append.1 hmem with hmem | hmem
    · exact List.mem_append_left _ hmem
    · rw [List.mem_singleton.1 hmem]
      exact List.mem_append_right _ List.mem_cons_self
  · rcases List.mem_append.1 hmem with hmem | hmem
    · obtain ⟨passed, left, rfl⟩ := List.append_of_mem hmem
      have hroom := hordered.room token (by simp [htokens, WrittenGoal.around])
      have hsplit : (TokenList.ofText text).tokens
          = w.front ++ passed ++ token :: (left ++ w.back) := by
        simp [htokens, WrittenGoal.around]
      have hbefore := hordered.stop_le_start (b := w.exitSection.1) hsplit (by simp [WrittenGoal.back])
      omega
    · rw [List.mem_singleton.1 hmem]

/-- Rules of which little is left, behind an option and an action. -/
def garbled : String :=
  "Version 1 INITSECTION GoalCompleted; KBSECTION ; IF A( PROC ) EXITSECTION ENDEXITSECTION"

/-- What is whole in the garbled goal. -/
def Sketch.garbledFrame : WrittenGoal where
  header :=
    [{ name := ⟨.onLine .identifier "Version" 0, rfl⟩
       token := .onLine .integer "1" 8
       value := .integer 1
       isKnown := .version rfl rfl
       semicolon := none }]
  initSection := ⟨.onLine .initSection "INITSECTION" 10, rfl⟩
  init := [.goalCompleted ⟨.onLine .goalCompleted "GoalCompleted" 22, rfl⟩
    ⟨.onLine .semicolon ";" 35, rfl⟩]
  kbSection := ⟨.onLine .kbSection "KBSECTION" 37, rfl⟩
  rules := []
  exitSection := ⟨.onLine .exitSection "EXITSECTION" 62, rfl⟩
  exit := []
  endExitSection := ⟨.onLine .endExitSection "ENDEXITSECTION" 74, rfl⟩
  footer := []

theorem garbled_goal_keeps_its_rules :
    ∃ stretch, (TokenList.ofText garbled).tokens = Sketch.garbledFrame.around stretch
      ∧ (∀ t ∈ stretch, t.kind ∉ sectionKeywords)
      ∧ (stretch.filter fun t => t.kind ∈ ruleStart)
          = [.onLine .if "IF" 49, .onLine .proc "PROC" 55]
      ∧ List.Forall₂ OpensAt (parseGoal garbled).tree.rules
          (stretch.filter fun t => t.kind ∈ ruleStart) := by
  let stretch : List Token := [.onLine .semicolon ";" 47, .onLine .if "IF" 49,
    .onLine .identifier "A" 52, .onLine .lParen "(" 53, .onLine .proc "PROC" 55,
    .onLine .rParen ")" 60]
  have htokens : (TokenList.ofText garbled).tokens = Sketch.garbledFrame.around stretch := by
    decide +kernel
  have hstretch : ∀ t ∈ stretch, t.kind ∉ sectionKeywords := by decide
  have hstays := damage_stays_in_knowledge_base garbled Sketch.garbledFrame stretch htokens hstretch
  exact ⟨stretch, htokens, hstretch, by decide, hstays.2.2.2.2⟩

/-! ## Damage in front of the rules

Section keywords are asked for one after the other, and nothing is skipped in order to find one.
What the options leave in front of INITSECTION, and any keyword of a rule in front of KBSECTION,
therefore takes the place of the section. -/

/-- What is left of some tokens behind the value of an option, if one is in front. -/
def afterValue : List Token → List Token
  | [] => []
  | token :: rest => if (optionValue? token).isSome then rest else token :: rest

/-- What is left of some tokens behind a semicolon, if one is in front. -/
def afterSemicolon : List Token → List Token
  | [] => []
  | token :: rest => if token.kind = .semicolon then rest else token :: rest

theorem afterValue_suffix (tokens : List Token) : afterValue tokens <:+ tokens := by
  cases tokens with
  | nil => exact List.suffix_rfl
  | cons token rest =>
    rw [afterValue]
    split
    · exact List.suffix_cons token rest
    · exact List.suffix_rfl

theorem afterSemicolon_suffix (tokens : List Token) : afterSemicolon tokens <:+ tokens := by
  cases tokens with
  | nil => exact List.suffix_rfl
  | cons token rest =>
    rw [afterSemicolon]
    split
    · exact List.suffix_cons token rest
    · exact List.suffix_rfl

theorem afterValue_semicolon_suffix (tokens : List Token) :
    afterSemicolon (afterValue tokens) <:+ tokens :=
  (afterSemicolon_suffix _).trans (afterValue_suffix tokens)

/-- What is left of some tokens behind the options in front: names, each perhaps with a value and
a semicolon. -/
def afterOptions : List Token → List Token
  | [] => []
  | name :: rest =>
    if name.kind = .identifier then afterOptions (afterSemicolon (afterValue rest)) else name :: rest
termination_by tokens => tokens.length
decreasing_by
  have hshort := (afterValue_semicolon_suffix rest).length_le
  simp only [List.length_cons]
  omega

theorem afterOptions_suffix (tokens : List Token) : afterOptions tokens <:+ tokens := by
  induction tokens using afterOptions.induct with
  | case1 =>
    have hnone : afterOptions [] = [] := by rw [afterOptions]
    exact ⟨[], hnone⟩
  | case2 name rest hname ih =>
    rw [afterOptions, if_pos hname]
    exact ih.trans ((afterValue_semicolon_suffix rest).trans (List.suffix_cons name rest))
  | case3 name rest hname =>
    have hstays : afterOptions (name :: rest) = name :: rest := by rw [afterOptions, if_neg hname]
    exact ⟨[], hstays⟩

/-- Options end in front of a section. -/
theorem afterOptions_append {token : Token} (hkind : token.kind = .initSection)
    (before rest : List Token) :
    afterOptions (before ++ token :: rest) = afterOptions before ++ token :: rest := by
  have hvalue (tokens : List Token) :
      afterValue (tokens ++ token :: rest) = afterValue tokens ++ token :: rest := by
    cases tokens with
    | nil => simp [afterValue, optionValue?, hkind]
    | cons first tokens => grind [afterValue]
  have hsemicolon (tokens : List Token) :
      afterSemicolon (tokens ++ token :: rest) = afterSemicolon tokens ++ token :: rest := by
    cases tokens with
    | nil => simp [afterSemicolon, hkind]
    | cons first tokens => grind [afterSemicolon]
  induction before using afterOptions.induct with
  | case1 =>
    have hstop : afterOptions (token :: rest) = token :: rest := by
      rw [afterOptions, if_neg (by simp [hkind])]
    rw [List.nil_append, hstop, afterOptions, List.nil_append]
  | case2 name more hname ih =>
    rw [List.cons_append, afterOptions, if_pos hname, hvalue, hsemicolon, ih, afterOptions,
      if_pos hname]
  | case3 name more hname =>
    rw [List.cons_append, afterOptions, if_neg hname, afterOptions, if_neg hname, List.cons_append]

/-- Options contain no keyword of a rule. -/
theorem filter_afterOptions (tokens : List Token) :
    (afterOptions tokens).filter (fun t => t.kind ∈ ruleStart)
      = tokens.filter fun t => t.kind ∈ ruleStart := by
  have hvalue (tokens : List Token) : (afterValue tokens).filter (fun t => t.kind ∈ ruleStart)
      = tokens.filter fun t => t.kind ∈ ruleStart := by
    cases tokens with
    | nil => rfl
    | cons first tokens => grind [afterValue, optionValue?, ruleStart]
  have hsemicolon (tokens : List Token) :
      (afterSemicolon tokens).filter (fun t => t.kind ∈ ruleStart)
        = tokens.filter fun t => t.kind ∈ ruleStart := by
    cases tokens with
    | nil => rfl
    | cons first tokens => grind [afterSemicolon, ruleStart]
  induction tokens using afterOptions.induct with
  | case1 => rw [afterOptions]
  | case2 name rest hname ih =>
    rw [afterOptions, if_pos hname, ih, hsemicolon, hvalue,
      List.filter_cons_of_neg (by simp [hname, ruleStart])]
  | case3 name rest hname => rw [afterOptions, if_neg hname]

namespace Parse

variable {s s' : Cursor} {token : Token} {stretch rest : List Token}

theorem ahead_take (s : Cursor) : (take s).2.ahead = s.ahead.tail := by
  rw [take_apply]
  cases hahead : s.ahead with
  | nil => exact hahead
  | cons token rest => rfl

theorem ahead_eat_semicolon (s : Cursor) : (eat .semicolon s).2.ahead = afterSemicolon s.ahead := by
  have hsemicolon : TokenKind.semicolon ≠ .endOfFile := by decide
  rcases eat_cases hsemicolon s with ⟨token, rest, hahead, hkind, heat⟩ | ⟨hne, heat⟩
  · rw [heat, hahead, afterSemicolon, if_pos hkind]
  · rw [heat]
    cases hahead : s.ahead with
    | nil => rfl
    | cons token rest =>
      rw [kindAt_zero_cons hahead] at hne
      rw [afterSemicolon, if_neg hne]

theorem ahead_takeValue (s : Cursor) :
    (if (optionValue? s.peek).isSome then (take s).2 else s).ahead = afterValue s.ahead := by
  cases hahead : s.ahead with
  | nil =>
    split
    · rw [ahead_take, hahead]
      rfl
    · exact hahead
  | cons token rest =>
    rw [show s.peek = token by simp [Cursor.peek, hahead], afterValue]
    split
    · rw [ahead_take, hahead]
      rfl
    · exact hahead

/-- A step at whose end nothing is taken. -/
theorem ahead_bind {α β : Type} {p : Parse α} {f : α → Parse β}
    (hf : ∀ a s, (f a s).2.ahead = s.ahead) (s : Cursor) :
    ((p >>= f) s).2.ahead = (p s).2.ahead := hf _ _

/-- An option takes a name, a value if there is one, and a semicolon if there is one. -/
theorem ahead_goalOption (placement : OptionPlacement) (hahead : s.ahead = token :: rest) :
    (goalOption placement s).2.ahead = afterSemicolon (afterValue rest) := by
  have hvalue := ahead_takeValue (take s).2
  rw [ahead_take, hahead, List.tail_cons] at hvalue
  rw [← hvalue]
  refine (ahead_bind (p := ranged _) ?_ s).trans ?_
  · rintro ⟨⟨name, value⟩, range⟩ s
    cases hproblem : optionProblem name value placement <;> simp only [hproblem] <;> rfl
  · rw [ranged_apply, bind_apply, bind_apply, peek_apply]
    dsimp only
    cases hfound : optionValue? (take s).2.peek with
    | none => exact ahead_eat_semicolon (reportMissing "option value" (take s).2).2
    | some value => exact ahead_eat_semicolon (take (take s).2).2

/-- The step that the options before the sections are read with. -/
def headerStep : Parse (Option (List GoalOption)) := do
  if ← isAt .identifier then
    return some [← goalOption .header]
  else
    return none

theorem headerStep_of_name (hat : s.kindAt 0 = .identifier) :
    headerStep s = (some [(goalOption .header s).1], (goalOption .header s).2) := by
  rw [headerStep, bind_apply, isAt_apply]
  simp only [hat, beq_self_eq_true, if_true]
  rfl

theorem headerStep_of_other (hat : s.kindAt 0 ≠ .identifier) : headerStep s = (none, s) := by
  rw [headerStep, bind_apply, isAt_apply]
  simp only [beq_eq_false_iff_ne.2 hat]
  rfl

theorem progresses_headerStep : Progresses headerStep := by
  constructor
  · intro s hnone
    by_cases hat : s.kindAt 0 = .identifier
    · simp [headerStep_of_name hat] at hnone
    · rw [headerStep_of_other hat]
  · intro s found hfound
    by_cases hat : s.kindAt 0 = .identifier
    · obtain ⟨token, rest, hahead⟩ := List.exists_cons_of_ne_nil (ahead_ne_nil (s := s) (by simp [hat]))
      rw [headerStep_of_name hat, ahead_goalOption .header hahead, hahead, List.length_cons]
      exact Nat.lt_succ_of_le (afterValue_semicolon_suffix rest).length_le
    · simp [headerStep_of_other hat] at hfound

/-- The options before the sections are taken, and nothing else. -/
theorem ahead_headerOptions (s : Cursor) : (headerOptions s).2.ahead = afterOptions s.ahead := by
  refine progresses_headerStep.many_induction
    (motive := fun s _ s' => s'.ahead = afterOptions s.ahead) ?_ ?_ s
  · intro s hnone
    have hat : s.kindAt 0 ≠ .identifier := by
      intro hat
      simp [headerStep_of_name hat] at hnone
    cases hahead : s.ahead with
    | nil => rw [afterOptions]
    | cons token rest => rw [afterOptions, if_neg (kindAt_zero_cons hahead ▸ hat)]
  · intro s found more s' hfound ih
    have hat : s.kindAt 0 = .identifier := by
      by_contra hat
      simp [headerStep_of_other hat] at hfound
    obtain ⟨token, rest, hahead⟩ := List.exists_cons_of_ne_nil (ahead_ne_nil (s := s) (by simp [hat]))
    rw [headerStep_of_name hat, ahead_goalOption .header hahead] at ih
    rw [ih, hahead, afterOptions, if_pos (kindAt_zero_cons hahead ▸ hat)]

theorem ahead_expect_of_ne {kind : TokenKind} (what : String) (hne : s.kindAt 0 ≠ kind) :
    (expect kind what s).2.ahead = s.ahead := by
  rw [expect, bind_apply, eat_of_ne hne]
  rfl

theorem ahead_expect_of_eq {kind : TokenKind} (what : String) (hahead : s.ahead = token :: rest)
    (hkind : token.kind = kind) : (expect kind what s).2.ahead = rest := by
  have hat : (s.kindAt 0 == kind) = true := by simp [kindAt_zero_cons hahead, hkind]
  rw [expect, bind_apply, eat, bind_apply, isAt_apply]
  simp only [hat, if_true]
  show (take s).2.ahead = rest
  rw [ahead_take, hahead, List.tail_cons]

/-- Where a rule or a section is met in place of KBSECTION, the rules are those in front of it. -/
theorem rules_behind_damage (hahead : s.ahead = stretch ++ token :: rest)
    (hkind : token.kind ∈ sectionKeywords)
    (hstretch : ∀ t ∈ stretch, t.kind ∉ TokenKind.endOfFile :: sectionKeywords)
    (hearly : token.kind = .kbSection → ∃ t ∈ stretch, t.kind ∈ ruleStart) :
    List.Forall₂ OpensAt
      (rules sectionKeywords
        (expect .kbSection "'KBSECTION'" (actionBlock sectionKeywords ruleStart s).2).2).1
      (stretch.filter fun t => t.kind ∈ ruleStart) := by
  obtain ⟨passed, left, rfl, hleft, hpassed⟩ :=
    (leaves_actionBlock s).split hahead (List.mem_append_right _ hkind)
  have hends := kindAt_actionBlock s
  generalize (actionBlock sectionKeywords ruleStart s).2 = s₁ at *
  have hmissing : s₁.kindAt 0 ≠ .kbSection := by
    cases left with
    | nil =>
      rw [kindAt_zero_cons hleft]
      intro hkb
      obtain ⟨t, hmem, hstart⟩ := hearly hkb
      exact hpassed t (by simpa using hmem) (List.mem_append_left _ hstart)
    | cons first left =>
      rw [kindAt_zero_cons hleft]
      intro hkb
      exact hstretch first (by simp) (by simp [hkb, sectionKeywords])
  rw [filter_ruleStart_of_passed hpassed]
  have hrest := (ahead_expect_of_ne "'KBSECTION'" hmissing).trans hleft
  exact (rules_of_stretch _ left hrest hkind fun t hmem =>
    hstretch t (List.mem_append_right _ hmem)).2

/-- Rules that were written are read, whatever was reported before. -/
theorem rules_written (w : WrittenGoal) (hahead : s.ahead = w.rules.flatMap (·.tokens) ++ w.back) :
    (rules sectionKeywords s).1 = w.rules.map (·.tree) := by
  have htakes : (s.reporting []).Takes (w.rules.flatMap (·.tokens))
      { s.reporting [] with
        ahead := w.back, last := (w.rules.flatMap (·.tokens)).getLast?.getD s.last } :=
    ⟨passes_skip hahead, rfl⟩
  have hstop : w.exitSection.1.kind ∈ sectionKeywords := by simp [w.exitSection.2, sectionKeywords]
  have hread := reads_rules w.rules (by rwa [kindAt_zero_cons rfl]) htakes
  rw [frames_rules.run hread]

end Parse

section Front

variable {list : TokenList} {w : WrittenGoal} {before between : List Token}

/-- In front of the rules the options are read, INITSECTION, actions and KBSECTION. -/
theorem goalFront_apply (s : Cursor) : (goalFront s).2 = (expect .kbSection "'KBSECTION'"
    (actionBlock sectionKeywords ruleStart
      (expect .initSection "'INITSECTION'" (headerOptions s).2).2).2).2 := by
  simp only [goalFront, bind_apply, discard_apply, pure_apply]

theorem rules_goal (s : Cursor) :
    (goal s).1.rules = (rules sectionKeywords (goalFront s).2).1 := by
  rw [goal_apply]
  generalize goalFront s = front
  obtain ⟨⟨header, init⟩, s₁⟩ := front
  dsimp only
  generalize rules sectionKeywords s₁ = found
  obtain ⟨rules, s₂⟩ := found
  rfl

theorem ahead_behind (htokens : list.tokens = w.behind before between) :
    (headerOptions (ofTokens list)).2.ahead = afterOptions before
      ++ w.initSection.1 :: (between ++ w.kbSection.1 :: (w.rules.flatMap (·.tokens) ++ w.back)) := by
  rw [ahead_headerOptions, ofTokens, htokens, WrittenGoal.behind,
    afterOptions_append w.initSection.2]

/-- Options in front of INITSECTION and anything but a rule behind it do no harm. -/
theorem rules_kept (htokens : list.tokens = w.behind before between)
    (hbetween : ∀ t ∈ between, t.kind ∉ TokenKind.endOfFile :: sectionKeywords)
    (hoptions : afterOptions before = []) (hnone : ∀ t ∈ between, t.kind ∉ ruleStart) :
    (goal (ofTokens list)).1.rules = w.rules.map (·.tree) := by
  have hs₁ := ahead_behind htokens
  rw [hoptions, List.nil_append] at hs₁
  have hs₂ := ahead_expect_of_eq "'INITSECTION'" hs₁ w.initSection.2
  have hkb : w.kbSection.1.kind ∈ openers := by simp [w.kbSection.2, openers, sectionKeywords]
  have hs₃ := ahead_actionBlock hs₂ hkb <| by
    intro t hmem
    have hother := hbetween t hmem
    simp only [openers, List.mem_cons, List.mem_append, not_or] at hother ⊢
    exact ⟨hother.1, hnone t hmem, hother.2⟩
  rw [rules_goal, goalFront_apply]
  exact rules_written w (ahead_expect_of_eq _ hs₃ w.kbSection.2)

/-- A rule that is met too early, or a token that opens no option, takes the place of KBSECTION or
INITSECTION: the rules are then those that the garbage opens. -/
theorem rules_lost (htokens : list.tokens = w.behind before between)
    (hgarbage : ∀ t ∈ before ++ between, t.kind ∉ TokenKind.endOfFile :: sectionKeywords)
    (hearly : afterOptions before = [] → ∃ t ∈ between, t.kind ∈ ruleStart) :
    List.Forall₂ OpensAt (goal (ofTokens list)).1.rules
      ((if afterOptions before = [] then between else before).filter fun t => t.kind ∈ ruleStart) := by
  have hs₁ := ahead_behind htokens
  rw [rules_goal, goalFront_apply]
  by_cases hoptions : afterOptions before = []
  · rw [hoptions, List.nil_append] at hs₁
    rw [if_pos hoptions]
    have hs₂ := ahead_expect_of_eq "'INITSECTION'" hs₁ w.initSection.2
    refine rules_behind_damage hs₂ (by simp [w.kbSection.2, sectionKeywords]) ?_ ?_
    · exact fun t hmem => hgarbage t (List.mem_append_right _ hmem)
    · exact fun _ => hearly hoptions
  · rw [if_neg hoptions, ← filter_afterOptions]
    have hother : ∀ t ∈ afterOptions before, t.kind ∉ TokenKind.endOfFile :: sectionKeywords :=
      fun t hmem => hgarbage t (List.mem_append_left _ ((afterOptions_suffix before).subset hmem))
    obtain ⟨first, more, hfirst⟩ := List.exists_cons_of_ne_nil hoptions
    have hmissing : (headerOptions (ofTokens list)).2.kindAt 0 ≠ .initSection := by
      rw [hfirst, List.cons_append] at hs₁
      rw [kindAt_zero_cons hs₁]
      intro hinit
      exact hother first (by simp [hfirst]) (by simp [hinit, sectionKeywords])
    have hs₂ := (ahead_expect_of_ne "'INITSECTION'" hmissing).trans hs₁
    exact rules_behind_damage hs₂ (by simp [w.initSection.2, sectionKeywords]) hother
      (by simp [w.initSection.2])

/-- Rules that were read in front of KBSECTION are not those behind it, but for none. -/
theorem rules_apart {start : Nat} {keywords front : List Token} (hordered : list.Ordered start)
    (htokens : list.tokens = front ++ w.kbSection.1 :: (w.rules.flatMap (·.tokens) ++ w.back))
    (hfront : ∀ t ∈ keywords, t ∈ front)
    (hrules : List.Forall₂ OpensAt (w.rules.map (·.tree)) keywords) : w.rules = [] := by
  cases hw : w.rules with
  | nil => rfl
  | cons rule rules =>
    rw [hw, List.map_cons] at hrules
    cases hrules with
    | @cons _ keyword _ keywords hopens =>
      have hstart : rule.keyword.1.range.span.start = keyword.range.span.start := hopens.start
      obtain ⟨passed, left, hsplit⟩ := List.append_of_mem (hfront keyword List.mem_cons_self)
      have hroom := hordered.room keyword (by simp [htokens, hsplit])
      have hbefore := hordered.stop_le_start (b := rule.keyword.1)
        (show list.tokens = passed ++ keyword :: (left ++ _) by
          rw [htokens, hsplit, List.append_assoc, List.cons_append])
        (by simp [hw, WrittenRule.tokens])
      omega

end Front

theorem rules_parseGoalTokens (list : TokenList) :
    (parseGoalTokens list).tree.rules = (goal (ofTokens list)).1.rules := by
  generalize hrun : goal (ofTokens list) = result
  obtain ⟨tree, after⟩ := result
  rw [parseGoalTokens_of_run hrun]

/-- **Damage in front of the rules may lose them.** They are read as if everything in front of them
were written by the grammar just if only options stand in front of INITSECTION and no keyword of a
rule stands between INITSECTION and KBSECTION. But for that, no rules at all are lost if there are
none and nothing in front of INITSECTION opens one. -/
theorem rules_are_kept_iff (text : String) (w : WrittenGoal) (before between : List Token)
    (htokens : (TokenList.ofText text).tokens = w.behind before between)
    (hgarbage : ∀ t ∈ before ++ between, t.kind ∉ sectionKeywords) :
    (parseGoal text).tree.rules
        = (parseGoalTokens ((TokenList.ofText text).withTokens w.tokens)).tree.rules
      ↔ (afterOptions before = [] ∧ ∀ t ∈ between, t.kind ∉ ruleStart)
        ∨ (afterOptions before ≠ [] ∧ w.rules = [] ∧ ∀ t ∈ before, t.kind ∉ ruleStart) := by
  have hordered := TokenList.ordered_ofText text
  have hkinds := (TokenList.kind_ofText text).1
  have hwhole : ((TokenList.ofText text).withTokens w.tokens).tokens = w.tokens := rfl
  obtain ⟨_, hrun, -⟩ := goal_run_written w hwhole
  rw [parseGoal, rules_parseGoalTokens, rules_parseGoalTokens, hrun]
  generalize TokenList.ofText text = list at *
  have hother : ∀ t ∈ before ++ between, t.kind ∉ TokenKind.endOfFile :: sectionKeywords := by
    intro t hmem
    have hmem' : t ∈ list.tokens := by
      rw [htokens, WrittenGoal.behind]
      rcases List.mem_append.1 hmem with hmem | hmem <;> simp [hmem]
    simp [(hkinds t hmem').1, hgarbage t hmem]
  have hkept := rules_kept htokens fun t hmem => hother t (List.mem_append_right _ hmem)
  have hlost := rules_lost htokens hother
  generalize (goal (ofTokens list)).1.rules = rules at hkept hlost
  show rules = w.rules.map (·.tree) ↔ _
  -- If rules are read from the garbage, each of them starts at a token of it, and there no written
  -- rule starts. The two lists are then the same only if both are empty.
  constructor
  · intro heq
    by_cases hharmless : afterOptions before = [] ∧ ∀ t ∈ between, t.kind ∉ ruleStart
    · exact .inl hharmless
    have hlost := hlost fun hoptions => by simpa [hoptions] using hharmless
    rw [heq] at hlost
    have hnone : w.rules = [] := by
      have hfront : list.tokens = (before ++ w.initSection.1 :: between)
          ++ w.kbSection.1 :: (w.rules.flatMap (·.tokens) ++ w.back) := by
        simp [htokens, WrittenGoal.behind]
      refine rules_apart hordered hfront (fun t hmem => ?_) hlost
      have hmem := (List.mem_filter.1 hmem).1
      split at hmem <;> simp [hmem]
    rw [hnone, List.map_nil, List.forall₂_nil_left_iff, List.filter_eq_nil_iff] at hlost
    by_cases hoptions : afterOptions before = []
    · rw [if_pos hoptions] at hlost
      exact absurd ⟨hoptions, by simpa using hlost⟩ hharmless
    · rw [if_neg hoptions] at hlost
      exact .inr ⟨hoptions, hnone, by simpa using hlost⟩
  · rintro (⟨hoptions, hnone⟩ | ⟨hoptions, hw, hnone⟩)
    · exact hkept hoptions hnone
    · have hlost := hlost fun hnil => absurd hnil hoptions
      rw [if_neg hoptions, List.filter_eq_nil_iff.2 (by simpa using hnone)] at hlost
      rw [List.forall₂_nil_right_iff.1 hlost, hw, List.map_nil]

/-- A goal with one rule, INITSECTION at one offset of the first line and the rest from another. -/
def Sketch.oneRule (first second : Nat) : WrittenGoal where
  header := []
  initSection := ⟨.onLine .initSection "INITSECTION" first, rfl⟩
  init := []
  kbSection := ⟨.onLine .kbSection "KBSECTION" second, rfl⟩
  rules :=
    [{ kind := .proc
       keyword := ⟨.onLine .proc "PROC" (second + 10), rfl⟩
       head := call "A" (second + 15)
       conditions := []
       mark := ⟨.onLine .then "THEN" (second + 19), rfl⟩
       action := .call none (call "B" (second + 24)) ⟨.onLine .semicolon ";" (second + 27), rfl⟩
       actions := [] }]
  exitSection := ⟨.onLine .exitSection "EXITSECTION" (second + 29), rfl⟩
  exit := []
  endExitSection := ⟨.onLine .endExitSection "ENDEXITSECTION" (second + 41), rfl⟩
  footer := []
where
  call (name : String) (start : Nat) : WrittenSignature :=
    { owner := none
      name := ⟨.onLine .identifier name start, rfl⟩
      opening := ⟨.onLine .lParen "(" (start + 1), rfl⟩
      parameters := none
      closing := ⟨.onLine .rParen ")" (start + 2), rfl⟩ }

/-- An option without a value, and a semicolon where no action is. -/
def careless : String :=
  "Version INITSECTION ; KBSECTION PROC A() THEN B(); EXITSECTION ENDEXITSECTION"

theorem careless_rules_are_kept : (parseGoal careless).tree.rules
    = (parseGoalTokens
        ((TokenList.ofText careless).withTokens (Sketch.oneRule 8 22).tokens)).tree.rules := by
  let before : List Token := [.onLine .identifier "Version" 0]
  let between : List Token := [.onLine .semicolon ";" 20]
  have htokens : (TokenList.ofText careless).tokens = (Sketch.oneRule 8 22).behind before between := by
    decide +kernel
  have hgarbage : ∀ t ∈ before ++ between, t.kind ∉ sectionKeywords := by decide
  have hoptions : afterOptions before = [] := by
    simp [before, afterOptions, afterValue, afterSemicolon, Token.onLine]
  have hnone : ∀ t ∈ between, t.kind ∉ ruleStart := by decide
  have hkept := rules_are_kept_iff careless (Sketch.oneRule 8 22) before between htokens hgarbage
  have hharmless := hkept.2 (.inl ⟨hoptions, hnone⟩)
  exact hharmless

/-- A semicolon in front of everything. -/
def earlySemicolon : String :=
  "; INITSECTION KBSECTION PROC A() THEN B(); EXITSECTION ENDEXITSECTION"

/-- **A token in front of INITSECTION may lose the rules.** -/
theorem early_semicolon_loses_rules :
    (TokenList.ofText earlySemicolon).tokens
        = (Sketch.oneRule 2 14).behind [.onLine .semicolon ";" 0] []
      ∧ (∀ t ∈ [Token.onLine .semicolon ";" 0], t.kind ∉ sectionKeywords)
      ∧ (parseGoal earlySemicolon).tree.rules
        ≠ (parseGoalTokens ((TokenList.ofText earlySemicolon).withTokens
            (Sketch.oneRule 2 14).tokens)).tree.rules := by
  decide +kernel

end Syntax
end StoryCheck
