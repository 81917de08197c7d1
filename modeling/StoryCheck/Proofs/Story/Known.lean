import StoryCheck.Proofs.Story.Coherence

/-!
# What is known about goals

Calls, weights and reports of checks come and go with the other goals of a story. What is known about
a goal besides, such as its text, changes only when the goal is read or taken out, so that it can be
followed by name through every step of a story.

* **`known_update`**, **`known_remove`**, **`known_finish`** — what is known after changes.
* **`holds_after`** — what holds of goals that were just read holds of all goals of a story.
-/

namespace StoryCheck

/-- What is known about a goal does not depend on its calls, its weight and the last check. -/
def StoryGoal.IsLasting {β : Type} (known : StoryGoal → β) : Prop :=
  ∀ goal calls weight checkReports, known { goal with calls, weight, checkReports } = known goal

namespace Story

variable {β : Type} {known : StoryGoal → β}

/-- What is known about the goals of a story, by name. -/
def knownOf (story : Story) (known : StoryGoal → β) : String → Option β :=
  fun name => (story.goals.get? name).map known

/-- A goal that is entered is known by what it is. -/
theorem known_enter (h : StoryGoal.IsLasting known) (story : Story) (goal : StoryGoal) :
    (story.enter goal).knownOf known
      = Function.update (story.knownOf known) goal.name (some (known goal)) := by
  let others :=
    if story.goals.contains goal.name then story.symbols.removeGoal goal.name else story.symbols
  let calls := (others.addGoal goal.name story.types goal.tree).2
  have hput := story.goals.known_put known { goal with calls }
  rw [h goal calls goal.weight goal.checkReports] at hput
  exact hput

/-- Refreshing a story tells nothing new about its goals. -/
theorem known_refresh (h : StoryGoal.IsLasting known) (story : Story) (treeHasChanged : Bool) :
    (story.refresh treeHasChanged).story.knownOf known = story.knownOf known :=
  story.goals.known_map known (fun _ => rfl) fun goal => h goal goal.calls _ goal.checkReports

/-- A check tells nothing new about the goal that is checked. -/
theorem known_checked (h : StoryGoal.IsLasting known) (story : Story) (goal : StoryGoal) :
    known (story.checked goal) = known goal :=
  h goal goal.calls goal.weight _

/-- A check of one goal tells nothing new about any. -/
theorem known_checkGoal (h : StoryGoal.IsLasting known) (story : Story) (name : String) :
    (story.checkGoal name).knownOf known = story.knownOf known := by
  refine story.goals.known_map known (story.annotates_checked fun goal => goal.name = name).name ?_
  intro goal
  split
  · exact known_checked h story goal
  · rfl

/-- **A goal that was read is known by its name.** -/
theorem known_update (h : StoryGoal.IsLasting known) (story : Story) (name uri text : String)
    (origin : GoalOrigin) : (story.update name uri text origin).story.knownOf known
      = Function.update (story.knownOf known) name (some (known (.ofText name uri text origin))) := by
  have hentered := known_enter h story (.ofText name uri text origin)
  unfold Story.update
  split
  · exact ((known_checkGoal h _ name).trans (known_refresh h _ _)).trans hentered
  · exact hentered

/-- **A goal that was taken out is not known any more.** -/
theorem known_remove (h : StoryGoal.IsLasting known) {story : Story} {name : String}
    {outcome : Outcome} (hremove : story.remove? name = some outcome) :
    outcome.story.knownOf known = Function.update (story.knownOf known) name none := by
  have herased : (story.drop name).knownOf known = Function.update (story.knownOf known) name none :=
    story.goals.known_erase known name
  refine remove_induction
    (P := fun outcome => outcome.story.knownOf known = Function.update (story.knownOf known) name none)
    hremove (fun _ => herased) (fun _ _ _ => ?_) fun _ outcome other houtcome => ?_
  · exact (known_refresh h (story.drop name) true).trans herased
  · exact (known_checkGoal h outcome.story other).trans houtcome

/-- Checking all goals tells nothing new. -/
theorem known_checkAll (h : StoryGoal.IsLasting known) (story : Story) :
    story.checkAll.knownOf known = story.knownOf known := by
  refine story.goals.known_map known ?_ ?_
  all_goals
    intro goal
    split
    · rfl
  · rfl
  · exact known_checked h story goal

/-- Finishing a load tells nothing new about the goals. -/
theorem known_finish (h : StoryGoal.IsLasting known) (story : Story) :
    story.finish.story.knownOf known = story.knownOf known := by
  unfold Story.finish
  split
  · let resolved : Story :=
      { story with
        phase := .ready
        weights := story.goals.weights
        goals := story.goals.rankBy story.goals.weights
        symbols := (story.symbols.invalidateAll.update story.goals.weights).1 }
    have hranked : resolved.knownOf known = story.knownOf known :=
      story.goals.known_map known (fun _ => rfl) fun goal => h goal goal.calls _ goal.checkReports
    exact (known_checkAll h resolved).trans hranked
  · rfl

/-! ## What is known about all goals

A property that is known of every goal that was just read is known of all goals: a goal is read
again when it changes, and everything else leaves what is known. -/

/-- What is known by name holds. -/
def IsTrueOf (known : String → Option Prop) : Prop := ∀ name p, known name = some p → p

/-- One goal more of which it is true. -/
theorem IsTrueOf.update {known : String → Option Prop} (h : IsTrueOf known) {name : String}
    {p : Prop} (hp : p) : IsTrueOf (Function.update known name (some p)) := by
  intro other q hq
  rw [Function.update_apply] at hq
  split at hq
  · exact Option.some.inj hq ▸ hp
  · exact h other q hq

/-- One goal less. -/
theorem IsTrueOf.forget {known : String → Option Prop} (h : IsTrueOf known) {name : String} :
    IsTrueOf (Function.update known name none) := by
  intro other q hq
  rw [Function.update_apply] at hq
  split at hq
  · cases hq
  · exact h other q hq

variable {property : StoryGoal → Prop}

/-- A step reads goals, takes some out and leaves the others as they were. -/
theorem isTrueOf_step (h : StoryGoal.IsLasting property)
    (hread : ∀ name uri text origin, property (.ofText name uri text origin)) {story : Story}
    (hstory : IsTrueOf (story.knownOf property)) (step : Step) :
    IsTrueOf ((story.step step).knownOf property) := by
  have hupdate (name uri text : String) (origin : GoalOrigin) :
      IsTrueOf ((story.update name uri text origin).story.knownOf property) := by
    rw [known_update h]
    exact hstory.update (hread name uri text origin)
  -- One case for each kind of step; in all but the reading ones what is known stays.
  cases step with
  | restart inputs =>
    show IsTrueOf (((story.restart inputs).toOption.getD story).knownOf property)
    unfold Story.restart
    cases inputs.check with
    | error reason => exact hstory
    | ok text =>
      refine ofHeader_induction (P := fun story => IsTrueOf (story.knownOf property))
        inputs.header.uri text inputs.environment nofun fun story title uri text reports hbefore => ?_
      have hentered : (story.enter (.ofText title uri text .header)).knownOf property
          = Function.update (story.knownOf property) title _ := known_enter h story _
      show IsTrueOf ((story.enter (.ofText title uri text .header)).knownOf property)
      rw [hentered]
      exact hbefore.update (hread title uri text .header)
  | loadGoal pending =>
    show IsTrueOf ((((story.loadGoal pending).toOption.map (·.story)).getD story).knownOf property)
    unfold Story.loadGoal
    cases pending.source.goalText with
    | error reason => exact hstory
    | ok text => exact hupdate _ _ text _
  | finish =>
    show IsTrueOf (story.finish.story.knownOf property)
    rw [known_finish h]
    exact hstory
  | update name uri text origin => exact hupdate name uri text origin
  | updateText name uri text => exact hupdate name uri text _
  | remove name =>
    show IsTrueOf ((((story.remove? name).map (·.story)).getD story).knownOf property)
    cases hremove : story.remove? name with
    | none => exact hstory
    | some outcome =>
      show IsTrueOf (outcome.story.knownOf property)
      rw [known_remove h hremove]
      exact hstory.forget
  | check name =>
    show IsTrueOf ((story.checkGoal name).knownOf property)
    rw [known_checkGoal h]
    exact hstory
  | reanalyze =>
    show IsTrueOf (story.reanalyze.knownOf property)
    unfold Story.reanalyze
    rw [known_checkAll h]
    exact hstory

/-- **What holds of every goal that was just read, and lasts, holds of all goals of a story.** -/
theorem holds_after (property : StoryGoal → Prop) (h : StoryGoal.IsLasting property)
    (hread : ∀ name uri text origin, property (.ofText name uri text origin)) (steps : List Step)
    {goal : StoryGoal} (hmem : goal ∈ (after steps).goals.goals) : property goal := by
  have hknown : IsTrueOf ((after steps).knownOf property) := by
    clear hmem
    induction steps using List.reverseRecOn with
    | nil => exact nofun
    | append_singleton steps last ih =>
      rw [after, List.foldl_append]
      exact isTrueOf_step h hread ih last
  refine hknown goal.name _ ?_
  rw [knownOf, GoalList.get?_of_mem (isCoherent_after steps).names hmem, Option.map_some]

end Story

end StoryCheck
