import StoryCheck.Proofs.Story.Coherence
import StoryCheck.Proofs.Symbol.Reanalysis

/-!
# Analyzing a story anew

A story can be analyzed anew without being read again: everything is resolved from the start and all
goals are checked. That this changes nothing the second time, and nothing after loading, says that a
story does not depend on what was there before the analysis.

* **`resolveAll_resolveAll_of_holds`** — the symbols of a story satisfy what resolving anew asks for.
* **`checkAll_checkAll`** — a check does not read what the check before it reported.
* **`reanalysis_changes_nothing`** — analyzing anew twice is doing it once, and after loading it does
  nothing.
-/

namespace StoryCheck

variable {header : SymbolTable} {types : TypeRegistry}

/-- In a table that holds goals, resolving everything twice is resolving everything once. -/
theorem SymbolTable.Holds.resolveAll_resolveAll {table : SymbolTable} {trees : Trees}
    (h : table.Holds header types trees) (hheader : header.IsDeclared) (weights : Weights) :
    (table.resolveAll weights).resolveAll weights = table.resolveAll weights := by
  refine SymbolTable.resolveAll_resolveAll h.nodup
    (fun hget hsystem => (h.declared_before hheader hget hsystem).2) (fun {key s} hget hinferred => ?_)
    weights
  cases hdeclared : header.get? key with
  | none => exact (h.gathers hdeclared hget).hasLength
  | some u =>
    obtain ⟨t, ht, hsystem, -⟩ := h.exists_declared hheader hdeclared
    rw [hget, Option.some.injEq] at ht
    exact absurd hsystem (by simp [← ht, hinferred])

namespace Story

variable {story : Story}

/-! ## Checks

Checks read the symbols and write reports. Repeating them finds the same symbols, and so the same
reports. -/

/-- What checks report depends on the names of the other goals, but not on earlier reports. -/
theorem checked_checked {other : Story} (hnames : other.goals.names = story.goals.names)
    (hsymbols : other.symbols = story.symbols) (htypes : other.types = story.types)
    (henvironment : other.environment = story.environment) (goal : StoryGoal) :
    other.checked (story.checked goal) = story.checked goal := by
  unfold checked checkContext
  rw [hnames, hsymbols, htypes, henvironment]
  rfl

/-- Checking all goals twice is checking them once. -/
theorem checkAll_checkAll (story : Story) : story.checkAll.checkAll = story.checkAll := by
  have hnames : story.checkAll.goals.names = story.goals.names :=
    GoalList.names_map (by intro goal; split <;> rfl)
  have hgoals : story.checkAll.checkAll.goals = story.checkAll.goals := by
    simp only [checkAll, GoalList.map, List.map_map, GoalList.mk.injEq]
    refine List.map_congr_left fun goal _ => ?_
    cases hheader : goal.isHeader with
    | true => simp [hheader]
    | false =>
      have hchecked : (story.checked goal).isHeader = false := hheader
      simp only [Function.comp_apply, hheader, hchecked, Bool.false_eq_true, if_false]
      show story.checkAll.checked (story.checked goal) = story.checked goal
      exact checked_checked hnames rfl rfl rfl goal
  show { story.checkAll with goals := story.checkAll.checkAll.goals } = story.checkAll
  rw [hgoals]

/-! ## Analyzing anew

An analysis forgets all verdicts first. What comes out of it depends on the goals alone, and these
are the same the second time. -/

/-- The story with all symbols resolved anew. -/
def resolved (story : Story) : Story :=
  { story with symbols := story.symbols.resolveAll story.weights }

theorem reanalyze_eq (story : Story) : story.reanalyze = story.resolved.checkAll := rfl

/-- Analyzing anew changes nothing where the symbols are as resolving anew leaves them and the reports
as checking leaves them. -/
theorem reanalyze_checkAll (hsymbols : story.symbols.resolveAll story.weights = story.symbols) :
    story.checkAll.reanalyze = story.checkAll := by
  have hresolved : story.checkAll.resolved = story.checkAll := by
    show { story.checkAll with symbols := story.symbols.resolveAll story.weights } = story.checkAll
    rw [hsymbols]
    rfl
  rw [reanalyze_eq, hresolved, checkAll_checkAll]

theorem IsBuiltOn.reanalyze_reanalyze (h : story.IsBuiltOn header types)
    (hheader : header.IsDeclared) : story.reanalyze.reanalyze = story.reanalyze := by
  have hresolved : story.resolved.symbols.resolveAll story.weights = story.resolved.symbols :=
    h.holds.resolveAll_resolveAll hheader story.weights
  exact reanalyze_checkAll hresolved

/-- Loading ends with an analysis. -/
theorem IsLoading.reanalyze_finish (h : story.IsLoading header types) (hheader : header.IsDeclared) :
    story.finish.story.reanalyze = story.finish.story := by
  unfold Story.finish
  rw [if_pos h.initializing]
  exact reanalyze_checkAll (h.holds.resolveAll_resolveAll hheader story.goals.weights)

/-- **Analyzing a story anew twice is doing it once, and right after loading it changes nothing**:
not a symbol, not a report. -/
theorem reanalysis_changes_nothing :
    (∀ steps, (after steps).reanalyze.reanalyze = (after steps).reanalyze)
      ∧ ∀ inputs, (load inputs).map reanalyze = load inputs := by
  constructor
  · intro steps
    obtain ⟨header, types, hordered⟩ := exists_isInOrder_after steps
    exact hordered.toIsBuiltOn.reanalyze_reanalyze hordered.declared
  · intro inputs
    cases hload : load inputs with
    | error reason => rfl
    | ok story =>
      obtain ⟨started, entered, hstart, hentered, rfl⟩ := load_eq_ok.1 hload
      obtain ⟨header, types, hheader, hstarted⟩ := isLoading_start hstart
      exact congrArg Except.ok ((hstarted.loadGoals hheader hentered).reanalyze_finish hheader)

end Story

end StoryCheck
