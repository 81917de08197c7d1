import StoryCheck.Proofs.Syntax.WrittenGoal

/-!
# Silent goals

Goals about which reading has nothing to report. They are written goals but for their options: an
option whose value is an integer that does not fit 64 bits has no value, and then nobody asks
whether there is such an option.

* **`SilentGoal.tokens`**, **`SilentGoal.tree`** — the tokens, and the tree that they stand for.
* **`WrittenGoal.silent`** — every written goal is a silent one.
* **`SilentGoal.exists_written`** — a silent goal whose options have values is a written one.
-/

namespace StoryCheck.Syntax

/-! ## Options

The value of an option is one token. An integer that does not fit gives no value and no report,
since the options are asked for their value before they are asked whether there are such options. -/

/-- A name with a value to which there is no objection, and perhaps a semicolon. -/
structure SilentOption (placement : OptionPlacement) where
  name : TokenOf .identifier
  token : Token
  value : OptionValue
  reads : optionValue? token = some value
  accepted : optionProblem name.1.value value placement = none
  semicolon : Option (TokenOf .semicolon)

namespace SilentOption

variable {placement : OptionPlacement}

/-- The tokens of an option. -/
def tokens (option : SilentOption placement) : List Token :=
  option.name.1 :: option.token :: option.semicolon.toList.map (·.1)

/-- The option that the tokens stand for. -/
def tree (option : SilentOption placement) : GoalOption :=
  ⟨option.name.1.value, option.value, placement, rangeOf option.tokens⟩

end SilentOption

namespace GoalOption

variable {placement : OptionPlacement} {name : String} {token : Token} {value : OptionValue}

/-- A value is an integer that can be represented, a word or a text. -/
theorem optionValue_cases (hvalue : optionValue? token = some value) (hne : value ≠ .missing) :
    (∃ n, token.kind = .integer ∧ Decimal.int64? token.value.toList = some n ∧ value = .integer n)
      ∨ token.kind = .identifier ∧ value = .identifier token.value
      ∨ token.kind = .string ∧ value = .string token.value := by
  unfold Syntax.optionValue? at hvalue
  -- The kind of the token says which.
  split at hvalue
  next hkind =>
    obtain rfl := Option.some.inj hvalue
    cases hreads : Decimal.int64? token.value.toList with
    | none => simp [hreads] at hne
    | some n => exact .inl ⟨n, hkind, rfl, rfl⟩
  next hkind => exact .inr (.inl ⟨hkind, (Option.some.inj hvalue).symm⟩)
  next hkind => exact .inr (.inr ⟨hkind, (Option.some.inj hvalue).symm⟩)
  next => cases hvalue

/-- An option with a value and without a problem is a known one. -/
theorem isKnown_of_optionProblem (hvalue : optionValue? token = some value) (hne : value ≠ .missing)
    (hproblem : optionProblem name value placement = none) : IsKnown placement name token value := by
  have hcases := optionValue_cases hvalue hne
  unfold optionProblem at hproblem
  rw [if_neg hne] at hproblem
  -- By name: each of the three options takes values of one kind, and any other name is a problem.
  split at hproblem
  · split at hproblem
    next hone =>
      subst hone
      obtain ⟨n, hkind, hreads, hn⟩ | ⟨-, hname⟩ | ⟨-, hstring⟩ := hcases
      · obtain rfl := OptionValue.integer.inj hn
        exact .version hkind hreads
      · cases hname
      · cases hstring
    next => cases hproblem
  · split at hproblem
    next hand =>
      subst hand
      obtain ⟨n, -, -, hn⟩ | ⟨hkind, hname⟩ | ⟨-, hstring⟩ := hcases
      · cases hn
      · exact .combiner hkind (OptionValue.identifier.inj hname).symm
      · cases hstring
    next => cases hproblem
  · split at hproblem
    next =>
      obtain ⟨n, -, -, hn⟩ | ⟨-, hname⟩ | ⟨hkind, hstring⟩ := hcases
      · cases hn
      · cases hname
      · rw [hstring]
        exact .parent hkind
    next => cases hproblem
  all_goals cases hproblem

/-- The value of a known option is read off its token. -/
theorem IsKnown.optionValue? (h : IsKnown placement name token value) :
    optionValue? token = some value := by
  cases h with
  | version kind reads => simp [Syntax.optionValue?, kind, reads]
  | combiner kind reads => simp [Syntax.optionValue?, kind, reads]
  | parent kind => simp [Syntax.optionValue?, kind]

/-- A known option is no problem. -/
theorem IsKnown.optionProblem (h : IsKnown placement name token value) :
    optionProblem name value placement = none := by
  cases h <;> simp [Syntax.optionProblem]

end GoalOption

namespace WrittenOption

variable {placement : OptionPlacement}

/-- There is no objection to an option that is known. -/
def silent (option : WrittenOption placement) : SilentOption placement :=
  ⟨option.name, option.token, option.value, option.isKnown.optionValue?,
    option.isKnown.optionProblem, option.semicolon⟩

/-- The tokens of a written option are the same when it is taken as a silent one. -/
@[simp] theorem tokens_silent (option : WrittenOption placement) :
    option.silent.tokens = option.tokens := rfl

/-- The option is the same when it is taken as a silent one. -/
@[simp] theorem tree_silent (option : WrittenOption placement) :
    option.silent.tree = option.tree := rfl

end WrittenOption

/-- An option with a value to which there is no objection is known. -/
theorem SilentOption.exists_written {placement : OptionPlacement} (option : SilentOption placement)
    (hvalue : option.value ≠ .missing) :
    ∃ w : WrittenOption placement, w.silent = option :=
  ⟨⟨option.name, option.token, option.value,
    GoalOption.isKnown_of_optionProblem option.reads hvalue option.accepted, option.semicolon⟩, rfl⟩

/-! ## Goals

As in a written goal, with silent options in place of written ones. Every written goal is a silent
one. -/

/-- Options, sections and options again, as in a written goal. -/
structure SilentGoal where
  header : List (SilentOption .header)
  initSection : TokenOf .initSection
  init : List WrittenAction
  kbSection : TokenOf .kbSection
  rules : List WrittenRule
  exitSection : TokenOf .exitSection
  exit : List WrittenAction
  endExitSection : TokenOf .endExitSection
  footer : List (SilentOption .footer)

namespace SilentGoal

/-- The tokens of a goal in front of its rules. -/
def front (goal : SilentGoal) : List Token :=
  goal.header.flatMap (·.tokens)
    ++ goal.initSection.1 :: goal.init.flatMap (·.tokens) ++ [goal.kbSection.1]

/-- The tokens of a goal behind its rules. -/
def back (goal : SilentGoal) : List Token :=
  goal.exitSection.1 :: goal.exit.flatMap (·.tokens)
    ++ goal.endExitSection.1 :: goal.footer.flatMap (·.tokens)

/-- The tokens of a goal: options and INIT section, the rules, the EXIT section and what is behind
it. -/
def tokens (goal : SilentGoal) : List Token :=
  goal.front ++ (goal.rules.flatMap (·.tokens) ++ goal.back)

/-- The tree they stand for. Its range is that of all its tokens. -/
def tree (goal : SilentGoal) : Goal :=
  { options := goal.header.map (·.tree) ++ goal.footer.map (·.tree)
    init := WrittenAction.block goal.init goal.kbSection
    rules := goal.rules.map (·.tree)
    exit := WrittenAction.block goal.exit goal.endExitSection
    range := rangeOf goal.tokens }

/-- A goal has at least the words of its sections. -/
theorem tokens_ne_nil (goal : SilentGoal) : goal.tokens ≠ [] := by simp [tokens, front]

end SilentGoal

namespace WrittenGoal

/-- There is nothing to report about what is written by the grammar. -/
def silent (goal : WrittenGoal) : SilentGoal :=
  { goal with header := goal.header.map (·.silent), footer := goal.footer.map (·.silent) }

/-- A written goal taken as a silent one has the same tokens in front of its rules. -/
@[simp] theorem front_silent (goal : WrittenGoal) : goal.silent.front = goal.front := by
  simp [SilentGoal.front, front, silent, List.flatMap_map]

/-- A written goal taken as a silent one has the same tokens behind its rules. -/
@[simp] theorem back_silent (goal : WrittenGoal) : goal.silent.back = goal.back := by
  simp [SilentGoal.back, back, silent, List.flatMap_map]

/-- A written goal taken as a silent one has the same tokens. -/
@[simp] theorem tokens_silent (goal : WrittenGoal) : goal.silent.tokens = goal.tokens := by
  rw [SilentGoal.tokens, front_silent, back_silent, tokens_eq]
  rfl

/-- It has the same tree. -/
@[simp] theorem tree_silent (goal : WrittenGoal) : goal.silent.tree = goal.tree := by
  simp [SilentGoal.tree, tree, ← tokens_silent, silent, Function.comp_def]

end WrittenGoal

/-- Where every option has a value, nothing but the grammar was followed. -/
theorem SilentGoal.exists_written (goal : SilentGoal)
    (hvalues : ∀ o ∈ goal.tree.options, o.value ≠ .missing) :
    ∃ w : WrittenGoal, w.silent = goal := by
  have hoptions {placement : OptionPlacement} (options : List (SilentOption placement))
      (h : ∀ option ∈ options, option.tree ∈ goal.tree.options) :
      ∃ written : List (WrittenOption placement), written.map (·.silent) = options := by
    induction options with
    | nil => exact ⟨[], rfl⟩
    | cons option options ih =>
      obtain ⟨w, rfl⟩ := option.exists_written (hvalues _ (h _ (List.mem_cons_self ..)))
      obtain ⟨written, rfl⟩ := ih fun other hmem => h other (List.mem_cons_of_mem _ hmem)
      exact ⟨w :: written, rfl⟩
  obtain ⟨header, hheader⟩ := hoptions goal.header fun option hmem =>
    List.mem_append_left _ (List.mem_map_of_mem hmem)
  obtain ⟨footer, hfooter⟩ := hoptions goal.footer fun option hmem =>
    List.mem_append_right _ (List.mem_map_of_mem hmem)
  exact ⟨{ goal with header, footer }, by simp [WrittenGoal.silent, hheader, hfooter]⟩

end StoryCheck.Syntax
