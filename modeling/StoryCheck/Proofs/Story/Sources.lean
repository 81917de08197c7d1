import StoryCheck.Proofs.Controller.AtomicSteps
import StoryCheck.Proofs.Story.Known

/-!
# Where goals come from

A goal comes from a text at an address. Loading a story goes through all texts in order, those of the
header first, and where several go by one name the last of them stays.

* **`Story.sources`** — address, text and origin of each goal.
* **`sources_updateText`**, **`sources_remove`** — what becomes of them by a request.
* **`sources_loadStory`** — what they are in a story that was loaded.
-/

namespace StoryCheck

open Syntax

/-- Address, text and origin of a goal. -/
def StoryGoal.source (goal : StoryGoal) : String × String × GoalOrigin :=
  (goal.uri, goal.text, goal.origin)

theorem StoryGoal.isLasting_source : IsLasting StoryGoal.source := fun _ _ _ _ => rfl

/-- Address, text and origin of each goal, by name. -/
def Story.sources (story : Story) : String → Option (String × String × GoalOrigin) :=
  story.knownOf StoryGoal.source

/-! ## Names that are given several times

A list of entries is read from behind: what the last entry of a name says is what counts, and
entries of other names do not matter. -/

/-- What the last entry of a name says. -/
def lastNamed {α : Type} (entries : List (String × α)) (name : String) : Option α :=
  (entries.filter fun entry => entry.1 == name).getLast?.map (·.2)

section LastNamed

variable {α : Type} {entries others : List (String × α)} {name changed : String}

theorem lastNamed_append_singleton (entry : α) :
    lastNamed (entries ++ [(name, entry)]) = Function.update (lastNamed entries) name (some entry) := by
  funext other
  unfold lastNamed
  by_cases heq : other = name
  · subst heq
    simp [List.filter_append]
  · simp [List.filter_append, heq, Ne.symm heq]

/-- Entries of other names do not matter. -/
theorem lastNamed_congr
    (h : (entries.filter fun entry => entry.1 != changed) = others.filter fun entry => entry.1 != changed)
    (hne : name ≠ changed) : lastNamed entries name = lastNamed others name := by
  have hsame (list : List (String × α)) : (list.filter fun entry => entry.1 == name)
      = (list.filter fun entry => entry.1 != changed).filter fun entry => entry.1 == name := by
    rw [List.filter_filter]
    refine List.filter_congr fun entry _ => ?_
    by_cases hname : entry.1 = name <;> simp [hname, hne]
  unfold lastNamed
  rw [hsame entries, hsame others, h]

/-- Naming one entry anew gives what other entries say if only that name was named anew. -/
theorem update_lastNamed_eq_iff (given : Option α)
    (h : (entries.filter fun entry => entry.1 != changed) = others.filter fun entry => entry.1 != changed) :
    Function.update (lastNamed entries) changed given = lastNamed others
      ↔ lastNamed others changed = given := by
  rw [Function.update_eq_iff]
  have hothers : ∀ name ≠ changed, lastNamed entries name = lastNamed others name :=
    fun _ => lastNamed_congr h
  exact ⟨fun hall => hall.1.symm, fun hgiven => ⟨hgiven.symm, hothers⟩⟩

theorem lastNamed_eq_none : lastNamed entries name = none ↔ ∀ entry ∈ entries, entry.1 ≠ name := by
  simp [lastNamed]

theorem mem_of_lastNamed {entry : α} (h : lastNamed entries name = some entry) :
    (name, entry) ∈ entries := by
  obtain ⟨⟨other, same⟩, hlast, rfl⟩ := Option.map_eq_some_iff.1 h
  obtain ⟨hmem, hname⟩ := List.mem_filter.1 (List.mem_of_getLast? hlast)
  obtain rfl : other = name := beq_iff_eq.1 hname
  exact hmem

/-- Later entries go first. -/
theorem lastNamed_append : lastNamed (entries ++ others) name
    = (lastNamed others name).or (lastNamed entries name) := by
  rw [lastNamed, List.filter_append, List.getLast?_append, Option.map_or]
  rfl

theorem lastNamed_map {β : Type} (f : α → β) :
    lastNamed (entries.map fun entry => (entry.1, f entry.2)) name
      = (lastNamed entries name).map f := by
  unfold lastNamed
  rw [List.filter_map, List.getLast?_map, Option.map_map, Option.map_map]
  rfl

end LastNamed

/-! ## Requests

What the requests for one goal do to the sources of a story. Each of them writes under one name. -/

namespace Story

variable {story : Story}

theorem sources_update (story : Story) (name uri text : String) (origin : GoalOrigin) :
    (story.update name uri text origin).story.sources
      = Function.update story.sources name (some (uri, text, origin)) :=
  known_update StoryGoal.isLasting_source story name uri text origin

/-- A new text stays with the origin of the goal. -/
theorem sources_updateText (story : Story) (name uri text : String) :
    (story.updateText name uri text).story.sources = Function.update story.sources name
      (some (uri, text, ((story.goals.get? name).map (·.origin)).getD .local)) :=
  story.sources_update name uri text _

theorem sources_remove (story : Story) (name : String) :
    (Controller.apply story (.remove name)).story.sources = Function.update story.sources name none := by
  show ((story.remove? name).getD { story }).story.sources = _
  cases hremove : story.remove? name with
  | none =>
    have hnone : story.sources name = none := by
      rw [sources, knownOf, Option.map_eq_none_iff]
      exact Option.map_eq_none_iff.1 hremove
    exact (Function.update_eq_self_iff.2 hnone.symm).symm
  | some outcome => exact known_remove StoryGoal.isLasting_source hremove

end Story

/-! ## Loading

The goals of the header come first, those of the directories follow, and each one that can be read
takes the place of what had its name. -/

/-- What a goal that is to be loaded brings, if it can be read. -/
def PendingGoal.brings? (pending : PendingGoal) : Option (String × String × String × GoalOrigin) :=
  pending.source.content.toOption.map fun text =>
    (pending.source.name, pending.source.uri, text, pending.origin)

/-- The goals that a header brings. -/
def StoryInputs.headerEntries (inputs : StoryInputs) (text : String) :
    List (String × String × String × GoalOrigin) :=
  (parseHeader text).tree.goalTexts.map fun (title, made, _) =>
    (title, Story.headerGoalUri inputs.header.uri title, made, .header)

/-- The goals that are loaded, in order, if the header has a text. -/
def StoryInputs.entries (inputs : StoryInputs) (text : String) :
    List (String × String × String × GoalOrigin) :=
  inputs.headerEntries text ++ inputs.pendingGoals.filterMap (·.brings?)

namespace Story

variable {story : Story} {inputs : StoryInputs} {text : String}

theorem sources_enterHeaderGoals (texts : List (String × String × SourceMap)) (story : Story)
    (before : List (String × String × String × GoalOrigin)) (hstory : story.sources = lastNamed before) :
    (texts.foldl (fun story (title, text, map) => story.enterHeaderGoal title text map) story).sources
      = lastNamed (before ++ texts.map fun (title, made, _) =>
          (title, headerGoalUri story.headerUri title, made, .header)) := by
  induction texts generalizing story before with
  | nil => rw [List.map_nil, List.append_nil, List.foldl_nil, hstory]
  | cons first rest ih =>
    obtain ⟨title, made, map⟩ := first
    have hfirst : (story.enterHeaderGoal title made map).sources
        = lastNamed (before ++ [(title, headerGoalUri story.headerUri title, made, .header)]) := by
      rw [lastNamed_append_singleton, ← hstory]
      exact known_enter StoryGoal.isLasting_source story _
    rw [List.foldl_cons, List.map_cons]
    refine (ih _ _ hfirst).trans ?_
    rw [List.append_assoc]
    rfl

theorem sources_loadAll (pendings : List PendingGoal) (story : Story)
    (before : List (String × String × String × GoalOrigin)) (hstory : story.sources = lastNamed before) :
    (Controller.loadAll story pendings).story.sources
      = lastNamed (before ++ pendings.filterMap (·.brings?)) := by
  -- The goals come one after the other; each one that can be read takes the place of what has its
  -- name.
  induction pendings generalizing story before with
  | nil => rw [List.filterMap_nil, List.append_nil, ← hstory]; rfl
  | cons first rest ih =>
    rw [Controller.loadAll_cons]
    show (Controller.loadAll (Controller.serveLoad story first).story rest).story.sources = _
    cases hcontent : first.source.content with
    | error reason =>
      have hfirst : (Controller.serveLoad story first).story = story := by
        rw [Controller.serveLoad_of_unreadable hcontent]
      have hentry : first.brings? = none := by
        rw [PendingGoal.brings?, hcontent]
        rfl
      rw [hfirst, List.filterMap_cons_none hentry]
      exact ih story before hstory
    | ok text =>
      have hfirst : (Controller.serveLoad story first).story
          = (story.update first.source.name first.source.uri text first.origin).story := by
        rw [Controller.serveLoad_of_content hcontent]
      have hentry : first.brings?
          = some (first.source.name, first.source.uri, text, first.origin) := by
        rw [PendingGoal.brings?, hcontent]
        rfl
      rw [hfirst, List.filterMap_cons_some hentry, ← List.singleton_append, ← List.append_assoc]
      refine ih _ _ ?_
      rw [lastNamed_append_singleton, ← hstory]
      exact story.sources_update _ _ _ _

/-- A story can be started from inputs with a header whose directories are all there. -/
theorem check_eq_ok (hheader : inputs.header.content = .ok text)
    (hdependencies : ∀ d ∈ inputs.dependencies, d.isPresent = true) : inputs.check = .ok text := by
  have hnone : inputs.dependencies.find? (!·.isPresent) = none := by
    simpa using hdependencies
  rw [StoryInputs.check, hnone, StoryInputs.headerText, hheader]

/-- **A story that was loaded has the last goal of each name.** -/
theorem sources_loadStory (story : Story) (hheader : inputs.header.content = .ok text)
    (hdependencies : ∀ d ∈ inputs.dependencies, d.isPresent = true) :
    (Controller.apply story (.loadStory inputs)).story.sources = lastNamed (inputs.entries text) := by
  have hstart : Controller.startStory story inputs
      = .ok (ofHeader inputs.header.uri text inputs.environment) := by
    rw [Controller.startStory_eq_ok, Story.start, Story.restart, check_eq_ok hheader hdependencies]
    rfl
  have happly : Controller.apply story (.loadStory inputs)
      = (Controller.loadAll (ofHeader inputs.header.uri text inputs.environment)
          inputs.pendingGoals).andThen finish := by
    simp only [Controller.apply, hstart]
  have hstarted : (ofHeader inputs.header.uri text inputs.environment).sources
      = lastNamed (inputs.headerEntries text) :=
    sources_enterHeaderGoals _ _ [] rfl
  rw [happly]
  exact (known_finish StoryGoal.isLasting_source _).trans (sources_loadAll _ _ _ hstarted)

end Story

end StoryCheck
