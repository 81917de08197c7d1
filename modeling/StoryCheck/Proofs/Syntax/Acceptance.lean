import StoryCheck.Proofs.Syntax.GoalReading
import StoryCheck.Proofs.Token.Lexing

/-!
# Which goals are accepted

A goal that is written by the grammar is read without a report, as the tree that its tokens stand
for. The other way round a goal that is read without a report is written by the grammar, but for
one slip: an integer behind the name of an option that does not fit 64 bits counts as no value, and
an option without a value is not looked at any more.

* **`parseGoalTokens_written`** — what is written is read.
* **`silent_goal_is_written_iff`** — what is read without a report is written exactly if every
  option has a value.
-/

namespace StoryCheck.Syntax

open Cursor Parse

/-- The tokens of a goal are taken from the beginning to the end. -/
theorem takes_all {list : TokenList} {tokens : List Token} (h : list.tokens = tokens) :
    (ofTokens list).Takes tokens
      { ofTokens list with ahead := [], last := tokens.getLast?.getD {} } :=
  ⟨passes_skip (by simp [ofTokens, h]), rfl⟩

/-- A silent goal is read from its tokens. -/
theorem goal_run_silent {list : TokenList} (w : SilentGoal) (h : list.tokens = w.tokens) :
    ∃ after, goal (ofTokens list) = (w.tree, after) ∧ after.reports = [] :=
  have hread := reads_silentGoal w rfl (takes_all h)
  ⟨_, hread.run, hread.clean⟩

/-- A written goal is read from its tokens, as it is a silent one. -/
theorem goal_run_written {list : TokenList} (w : WrittenGoal) (h : list.tokens = w.tokens) :
    ∃ after, goal (ofTokens list) = (w.tree, after) ∧ after.reports = [] := by
  rw [← w.tree_silent]
  exact goal_run_silent w.silent (h.trans w.tokens_silent.symm)

/-- What is read from tokens, by what the rule for goals does with them. -/
theorem parseGoalTokens_of_run {list : TokenList} {tree : Goal} {after : Cursor}
    (hrun : goal (ofTokens list) = (tree, after)) :
    parseGoalTokens list =
      { tree, diagnostics := Diagnostic.sortBySpan (list.reports ++ after.reports) } := by
  rw [parseGoalTokens, StateT.run, hrun]

/-- If there is nothing among sorted reports there was nothing to be sorted. -/
theorem eq_nil_of_sortBySpan {ds : List Diagnostic} (h : Diagnostic.sortBySpan ds = []) : ds = [] := by
  have hlength := congrArg List.length h
  rw [Diagnostic.sortBySpan, List.length_mergeSort] at hlength
  exact List.length_eq_zero_iff.1 hlength

/-- A text about which there is nothing to report is that of a silent goal. -/
theorem exists_silent {text : String} (hsilent : (parseGoal text).diagnostics = []) :
    ∃ w : SilentGoal, (TokenList.ofText text).tokens = w.tokens
      ∧ (parseGoal text).tree = w.tree ∧ (TokenList.ofText text).reports = [] := by
  obtain ⟨hkinds, hlast⟩ := TokenList.kind_ofText text
  unfold parseGoal at hsilent ⊢
  generalize TokenList.ofText text = list at *
  cases hrun : goal (ofTokens list) with
  | mk tree after =>
  rw [parseGoalTokens_of_run hrun] at hsilent ⊢
  obtain ⟨hlexical, hclean⟩ := List.append_eq_nil_iff.1 (eq_nil_of_sortBySpan hsilent)
  obtain ⟨taken, found, hpasses⟩ := advances_goal (ofTokens list)
  rw [hrun] at hpasses
  have hahead : ∀ token ∈ after.ahead, token.kind ≠ .endOfFile := by
    intro token hmem
    have hahead : list.tokens = taken ++ after.ahead := hpasses.ahead
    exact (hkinds token (hahead ▸ List.mem_append_right taken hmem)).1
  obtain ⟨w, htree, htakes, hnone⟩ := Reads.goal (hpasses.ending ▸ hlast) hahead ⟨hrun, hclean⟩
  have htokens := htakes.passes.ahead
  rw [hnone, List.append_nil] at htokens
  exact ⟨w, htokens, htree, hlexical⟩

/-- If its options all have a value, it follows the grammar. -/
theorem exists_written {text : String} (hsilent : (parseGoal text).diagnostics = [])
    (hvalues : ∀ o ∈ (parseGoal text).tree.options, o.value ≠ .missing) :
    ∃ w : WrittenGoal, (TokenList.ofText text).tokens = w.tokens := by
  obtain ⟨goal, htokens, htree, -⟩ := exists_silent hsilent
  obtain ⟨w, rfl⟩ := goal.exists_written (htree ▸ hvalues)
  exact ⟨w, htokens.trans w.tokens_silent⟩

/-- A known option has a value. -/
theorem GoalOption.IsKnown.value_ne_missing {placement : OptionPlacement} {name : String}
    {token : Token} {value : OptionValue} (h : IsKnown placement name token value) :
    value ≠ .missing := by
  cases h <;> nofun

/-- The options of a written goal have values. -/
theorem WrittenGoal.value_ne_missing (w : WrittenGoal) : ∀ o ∈ w.tree.options, o.value ≠ .missing := by
  intro o ho
  rcases List.mem_append.1 ho with ho | ho
  · obtain ⟨option, -, rfl⟩ := List.mem_map.1 ho
    exact option.isKnown.value_ne_missing
  · obtain ⟨option, -, rfl⟩ := List.mem_map.1 ho
    exact option.isKnown.value_ne_missing

/-- So have those of a goal whose tokens follow the grammar. -/
theorem values_of_written {text : String} {w : WrittenGoal}
    (h : (TokenList.ofText text).tokens = w.tokens) :
    ∀ o ∈ (parseGoal text).tree.options, o.value ≠ .missing := by
  obtain ⟨after, hrun, -⟩ := goal_run_written w h
  rw [parseGoal, parseGoalTokens_of_run hrun]
  exact w.value_ne_missing

/-! ## What is accepted

Both directions go through the silent goals, which differ from the written ones in the options
without a value. -/

/-- A goal with something of everything. -/
def acceptable : String :=
  "Version 1\nSubGoalCombiner SGC_AND;\nINITSECTION\nDB_Camp(1, \"north\");\nKBSECTION\n"
    ++ "IF Seen([in](CHARACTER)_who, _n)\nAND NOT _who.DB_Gone()\nAND _n >= -2.5\nTHEN\n"
    ++ "NOT DB_Camp(1, \"north\");\nGoalCompleted;\nEXITSECTION\nENDEXITSECTION\n"
    ++ "ParentTargetEdge \"Act1\"\n"

/-- Nothing is reported about this goal, and its options have values. -/
theorem acceptable_is_silent : (parseGoal acceptable).diagnostics = []
    ∧ (∀ o ∈ (parseGoal acceptable).tree.options, o.value ≠ .missing)
    ∧ (TokenList.ofText acceptable).reports = [] := by
  decide +kernel

/-- **What is written is read.** Tokens without a lexical report that follow the grammar of goals
give the tree that they stand for, and nothing to report. -/
theorem parseGoalTokens_written (list : TokenList) (w : WrittenGoal)
    (hlexical : list.reports = []) (htokens : list.tokens = w.tokens) :
    parseGoalTokens list = { tree := w.tree, diagnostics := [] } := by
  obtain ⟨after, hrun, hclean⟩ := goal_run_written w htokens
  rw [parseGoalTokens_of_run hrun, hlexical, hclean]
  simp [Diagnostic.sortBySpan]

/-- It is read as the tree of what is written. -/
theorem acceptable_is_read : ∃ w : WrittenGoal, (TokenList.ofText acceptable).tokens = w.tokens
    ∧ parseGoal acceptable = { tree := w.tree, diagnostics := [] } := by
  obtain ⟨hsilent, hvalues, hlexical⟩ := acceptable_is_silent
  obtain ⟨w, hwritten⟩ := exists_written hsilent hvalues
  exact ⟨w, hwritten, parseGoalTokens_written (.ofText acceptable) w hlexical hwritten⟩

/-- **What is read without a report is written**, if and only if no option is without a value. -/
theorem silent_goal_is_written_iff (text : String) (hsilent : (parseGoal text).diagnostics = []) :
    (∃ w : WrittenGoal, (TokenList.ofText text).tokens = w.tokens)
      ↔ ∀ o ∈ (parseGoal text).tree.options, o.value ≠ .missing :=
  ⟨fun ⟨_, hwritten⟩ => values_of_written hwritten, exists_written hsilent⟩

/-- It is written by the grammar. -/
theorem acceptable_is_written :
    ∃ w : WrittenGoal, (TokenList.ofText acceptable).tokens = w.tokens := by
  obtain ⟨hsilent, hvalues, -⟩ := acceptable_is_silent
  exact (silent_goal_is_written_iff acceptable hsilent).2 hvalues

/-- A goal with a version that does not fit 64 bits. -/
def overlongVersion : String :=
  "Version 9223372036854775808\nINITSECTION\nKBSECTION\nEXITSECTION\nENDEXITSECTION\n"

/-- **A goal may be accepted without a word though the grammar does not allow it.** -/
theorem silent_goal_may_not_be_written : (parseGoal overlongVersion).diagnostics = []
    ∧ ¬ ∃ w : WrittenGoal, (TokenList.ofText overlongVersion).tokens = w.tokens := by
  refine ⟨by decide +kernel, fun ⟨w, hwritten⟩ => ?_⟩
  have hvalue : ∃ o ∈ (parseGoal overlongVersion).tree.options, o.value = .missing := by
    decide +kernel
  obtain ⟨o, hmem, hmissing⟩ := hvalue
  exact values_of_written hwritten o hmem hmissing

end StoryCheck.Syntax
