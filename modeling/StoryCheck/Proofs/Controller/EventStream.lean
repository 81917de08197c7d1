import StoryCheck.Proofs.Controller.AtomicSteps
import StoryCheck.Story.Query

/-!
# What a client shows

A client that listens from the start shows, for each goal, the reports that were announced last. For
a goal that the story holds these are the reports there are. A goal that went with a request to
remove it is cleared. But a goal that another request put out of the story, a load of a whole story
without it or of a goal of the header in its place, goes without a word: whatever the client shows
for it stays.

* **`shown_apply`** — what a request does to what is shown.
* **`Forsaken`** — a goal with reports went, without a request to remove it, and did not come back.
* **`shown_iff_not_forsaken`** — the client shows what there is to report just if the goal is not
  forsaken.
-/

namespace StoryCheck

namespace StoryEvent

/-- What a client shows for a goal after an event. -/
def shownAfter (name : String) (before : List Diagnostic) : StoryEvent → List Diagnostic
  | diagnostics goal _ reports => if goal = name then reports else before
  | _ => before

/-- What a client shows for a goal after some events. -/
def shownAfterAll (name : String) (before : List Diagnostic) (events : List StoryEvent) :
    List Diagnostic :=
  events.foldl (shownAfter name) before

/-- What a client shows for a goal that has seen all events. -/
def shown (events : List StoryEvent) (name : String) : List Diagnostic :=
  shownAfterAll name [] events

variable {name : String} {before : List Diagnostic}

/-- What is shown after two runs of events. -/
theorem shownAfterAll_append (first second : List StoryEvent) :
    shownAfterAll name before (first ++ second)
      = shownAfterAll name (shownAfterAll name before first) second :=
  List.foldl_append

/-- The same from the beginning. -/
theorem shown_append (first second : List StoryEvent) :
    shown (first ++ second) name = shownAfterAll name (shown first name) second :=
  List.foldl_append

end StoryEvent

open StoryEvent

namespace Story

variable {story : Story} {name : String}

/-- What there is to report about a goal that was not made from the header, if there is such a
goal. -/
def reportsOn? (story : Story) (name : String) : Option (List Diagnostic) :=
  if (story.goals.get? name).any (!·.isHeader) then some (story.diagnostics name) else none

/-- There are reports on a goal that the story holds, unless it is one of the header. -/
theorem reportsOn?_eq : story.reportsOn? name =
    (story.goals.get? name).bind fun goal => if goal.isHeader then none else some goal.diagnostics := by
  unfold reportsOn? diagnostics
  cases story.goals.get? name with
  | none => rfl
  | some goal => cases hheader : goal.isHeader <;> simp [hheader]

/-- What there is to report depends on the goal of that name only. -/
theorem reportsOn?_congr {other : Story} {f : StoryGoal → StoryGoal}
    (hget : other.goals.get? name = (story.goals.get? name).map f)
    (hf : ∀ goal, story.goals.get? name = some goal →
      (f goal).isHeader = goal.isHeader ∧ (f goal).diagnostics = goal.diagnostics) :
    other.reportsOn? name = story.reportsOn? name := by
  rw [reportsOn?_eq, reportsOn?_eq, hget]
  cases hgoal : story.goals.get? name with
  | none => rfl
  | some goal =>
    obtain ⟨hheader, hdiagnostics⟩ := hf goal hgoal
    simp [hheader, hdiagnostics]

/-- A check changes the goal that is checked and no other. -/
theorem get?_checkGoal (story : Story) (checked name : String) :
    (story.checkGoal checked).goals.get? name =
      (story.goals.get? name).map fun goal =>
        if goal.name = checked then story.checked goal else goal :=
  GoalList.get?_map (by intro goal; split <;> rfl)

/-- The reports on goals that are not checked stay. -/
theorem reportsOn?_checkGoal {checked : String} (hne : name ≠ checked) :
    (story.checkGoal checked).reportsOn? name = story.reportsOn? name := by
  refine reportsOn?_congr (get?_checkGoal story checked name) fun goal hgoal => ?_
  rw [if_neg fun heq => hne ((GoalList.name_of_get? hgoal).symm.trans heq)]
  exact ⟨rfl, rfl⟩

/-- A check does not change on which goals there are reports. -/
theorem isSome_reportsOn?_checkGoal (story : Story) (checked name : String) :
    ((story.checkGoal checked).reportsOn? name).isSome = (story.reportsOn? name).isSome := by
  rw [reportsOn?_eq, reportsOn?_eq, get?_checkGoal]
  cases story.goals.get? name with
  | none => rfl
  | some goal =>
    have hheader : (story.checked goal).isHeader = goal.isHeader := rfl
    by_cases heq : goal.name = checked <;> cases hcase : goal.isHeader <;> simp [heq, hheader, hcase]

/-- Refreshing a story changes no reports. -/
@[simp] theorem reportsOn?_refresh (story : Story) (treeHasChanged : Bool) (name : String) :
    (story.refresh treeHasChanged).story.reportsOn? name = story.reportsOn? name :=
  reportsOn?_congr (f := (·.rankBy (story.refresh treeHasChanged).story.weights))
    (GoalList.get?_map fun _ => rfl) fun _ _ => ⟨rfl, rfl⟩

/-- Entering a goal leaves the reports on others. -/
theorem reportsOn?_enter {goal : StoryGoal} (hne : name ≠ goal.name) :
    (story.enter goal).reportsOn? name = story.reportsOn? name := by
  refine reportsOn?_congr (f := id) ?_ fun _ _ => ⟨rfl, rfl⟩
  rw [Option.map_id, id]
  exact GoalList.get?_put.trans (if_neg hne)

/-- A goal that was dropped has no reports. -/
theorem reportsOn?_drop (story : Story) (removed name : String) :
    (story.drop removed).reportsOn? name
      = if name = removed then none else story.reportsOn? name := by
  have hget : (story.drop removed).goals.get? name = _ := GoalList.get?_erase
  rw [reportsOn?_eq, reportsOn?_eq, hget]
  split <;> rfl

/-! ## What is announced

An event is about one goal or about all of them. Those about one goal replace what is shown for it
and leave the rest. -/

/-- An announcement shows the reports of the goal it is about. -/
theorem shownAfterAll_announce (story : Story) (announced name : String)
    (before : List Diagnostic) :
    shownAfterAll name before (story.announce announced)
      = if name = announced then (story.reportsOn? name).getD before else before := by
  unfold announce
  rw [reportsOn?_eq]
  by_cases heq : name = announced
  · subst heq
    cases hget : story.goals.get? name with
    | none => rw [if_pos rfl]; rfl
    | some goal => cases hheader : goal.isHeader <;> simp [hheader, shownAfterAll, shownAfter]
  · rw [if_neg heq]
    cases story.goals.get? announced with
    | none => rfl
    | some goal =>
      cases hheader : goal.isHeader <;> simp [hheader, shownAfterAll, shownAfter, Ne.symm heq]

/-- When goals are announced one after the other, each own goal among them is shown. -/
theorem shownAfterAll_flatMap_announce (story : Story) (names : List String)
    (before : List Diagnostic) :
    shownAfterAll name before (names.flatMap story.announce)
      = if name ∈ names then (story.reportsOn? name).getD before else before := by
  induction names generalizing before with
  | nil => rfl
  | cons announced rest ih =>
    rw [List.flatMap_cons, shownAfterAll_append, shownAfterAll_announce, ih]
    by_cases heq : name = announced <;> by_cases hmem : name ∈ rest <;>
      cases story.reportsOn? name <;> simp [heq, hmem]

/-- The events of a refresh are not about single goals. -/
@[simp] theorem shownAfterAll_refresh (story : Story) (treeHasChanged : Bool)
    (before : List Diagnostic) :
    shownAfterAll name before (story.refresh treeHasChanged).events = before := by
  cases treeHasChanged <;> rfl

end Story

/-! ## Checks that are announced

An outcome follows a story for a goal if whoever showed what there was shows what there is now. This
can be put together from steps, since a step either leaves the reports of the goal or announces
them. -/

/-- Whoever showed what there was to report about a goal before shows what there is to report after,
and whether there is such a goal has not changed. -/
structure Outcome.Follows (outcome : Outcome) (story : Story) (name : String) : Prop where
  isSome : (outcome.story.reportsOn? name).isSome = (story.reportsOn? name).isSome
  shows : ∀ before, (∀ reports ∈ story.reportsOn? name, before = reports) →
    shownAfterAll name before outcome.events = (outcome.story.reportsOn? name).getD before

namespace Outcome.Follows

variable {outcome : Outcome} {story : Story} {name : String}

/-- Nothing is announced and nothing has changed. -/
theorem of_silent (hevents : ∀ before, shownAfterAll name before outcome.events = before)
    (hreports : outcome.story.reportsOn? name = story.reportsOn? name) :
    outcome.Follows story name := by
  refine ⟨by rw [hreports], fun before hbefore => ?_⟩
  rw [hevents, hreports]
  cases hcase : story.reportsOn? name with
  | none => rfl
  | some reports => exact hbefore reports hcase

/-- Nothing has happened at all. -/
theorem refl (story : Story) (name : String) : ({ story } : Outcome).Follows story name :=
  of_silent (fun _ => rfl) rfl

/-- One step follows the other. -/
theorem andThen {step : Story → Outcome} (hfirst : outcome.Follows story name)
    (hsecond : (step outcome.story).Follows outcome.story name) :
    (outcome.andThen step).Follows story name := by
  refine ⟨hsecond.isSome.trans hfirst.isSome, fun before hbefore => ?_⟩
  have hmid := hfirst.shows before hbefore
  have hshows := hsecond.shows ((outcome.story.reportsOn? name).getD before)
    fun reports hreports => by rw [hreports, Option.getD_some]
  have hevents : shownAfterAll name before (outcome.andThen step).events
      = shownAfterAll name (shownAfterAll name before outcome.events)
          (step outcome.story).events :=
    shownAfterAll_append _ _
  rw [hevents, hmid, hshows]
  show _ = ((step outcome.story).story.reportsOn? name).getD before
  cases hafter : (step outcome.story).story.reportsOn? name with
  | some reports => rfl
  | none =>
    -- The goal was not there before the second step either.
    have hnone : outcome.story.reportsOn? name = none := by
      have := hsecond.isSome
      rw [hafter] at this
      simpa using this.symm
    rw [hnone, Option.getD_none, Option.getD_none]

/-- A refresh is silent. -/
theorem refresh (story : Story) (treeHasChanged : Bool) (name : String) :
    (story.refresh treeHasChanged).Follows story name :=
  of_silent (fun before => story.shownAfterAll_refresh treeHasChanged before)
    (story.reportsOn?_refresh treeHasChanged name)

/-- A check with its announcement: either the goal is the one that is checked and is shown, or its
reports stay. -/
theorem checkAndAnnounce (story : Story) (checked name : String) :
    (Story.checkAndAnnounce checked story).Follows story name := by
  refine ⟨story.isSome_reportsOn?_checkGoal checked name, fun before hbefore => ?_⟩
  refine (Story.shownAfterAll_announce _ checked name before).trans ?_
  split
  · rfl
  · next hne =>
    show before = ((story.checkGoal checked).reportsOn? name).getD before
    rw [Story.reportsOn?_checkGoal hne]
    cases hcase : story.reportsOn? name with
    | none => rfl
    | some reports => exact hbefore reports hcase

/-- What counts about the story in the beginning are the reports it had. -/
theorem of_reports_eq {other : Story} (hfollows : outcome.Follows other name)
    (hreports : other.reportsOn? name = story.reportsOn? name) : outcome.Follows story name := by
  refine ⟨by rw [hfollows.isSome, hreports], fun before hbefore => hfollows.shows before ?_⟩
  rwa [hreports]

end Outcome.Follows

/-! ## What is shown after a request

One lemma for each thing that a request may do. What a client shows for a goal is then what the
story reports on it, unless the goal is away and nobody has said so. -/

namespace Story

variable {story : Story} {name : String} {before : List Diagnostic}

/-- In a loaded story every new text is announced. -/
theorem shown_update (hready : story.isReady) (changed uri text : String) (origin : GoalOrigin)
    (hbefore : ∀ reports ∈ story.reportsOn? name, before = reports) :
    shownAfterAll name before (story.update changed uri text origin).events
      = ((story.update changed uri text origin).story.reportsOn? name).getD before := by
  unfold Story.update
  rw [if_pos hready]
  set goal := StoryGoal.ofText changed uri text origin
  set refreshed := (story.enter goal).refresh _ with hrefreshed
  by_cases hname : name = changed
  · refine (shownAfterAll_append _ _).trans ?_
    rw [hrefreshed, shownAfterAll_refresh]
    exact (shownAfterAll_announce _ changed name before).trans (if_pos hname)
  · have hfollows : (refreshed.andThen (checkAndAnnounce changed)).Follows (story.enter goal) name :=
      (Outcome.Follows.refresh _ _ name).andThen (.checkAndAnnounce _ changed name)
    exact (hfollows.of_reports_eq (reportsOn?_enter hname)).shows before hbefore

/-- In a story that is not ready an update announces nothing. -/
theorem events_update (hnot : ¬ story.isReady) (changed uri text : String) (origin : GoalOrigin) :
    (story.update changed uri text origin).events = [] := by
  unfold Story.update
  rw [if_neg hnot]

/-- What is shown for a goal that was taken out is cleared, and a goal of the header goes as it was:
unseen. -/
theorem shown_remove {outcome : Outcome} (hremove : story.remove? name = some outcome)
    (hready : story.isReady) :
    outcome.story.reportsOn? name = none
      ∧ ∀ before, shownAfterAll name before outcome.events
        = if (story.reportsOn? name).isSome then [] else before := by
  refine remove_induction
    (P := fun outcome => outcome.story.reportsOn? name = none
      ∧ ∀ before, shownAfterAll name before outcome.events
        = if (story.reportsOn? name).isSome then [] else before)
    hremove (absurd hready) (fun _ goal hget => ?_) fun _ outcome other ⟨hnone, hevents⟩ => ?_
  · refine ⟨?_, fun before => ?_⟩
    · exact (reportsOn?_refresh _ true name).trans ((reportsOn?_drop story name name).trans (if_pos rfl))
    · refine (shownAfterAll_append _ _).trans ?_
      rw [shownAfterAll_refresh, reportsOn?_eq, hget]
      cases hheader : goal.isHeader <;> simp [hheader, shownAfterAll, shownAfter]
  · have hfollows := Outcome.Follows.checkAndAnnounce outcome.story other name
    have hgone : (checkAndAnnounce other outcome.story).story.reportsOn? name = none := by
      simpa [hnone] using hfollows.isSome
    refine ⟨hgone, fun before => (shownAfterAll_append _ _).trans ?_⟩
    rw [hevents, hfollows.shows _ (by simp [hnone]), hgone, Option.getD_none]

/-- Taking out another goal follows the story. -/
theorem follows_remove {outcome : Outcome} {removed : String}
    (hremove : story.remove? removed = some outcome) (hready : story.isReady)
    (hne : name ≠ removed) : outcome.Follows story name := by
  refine remove_induction (P := fun outcome => outcome.Follows story name) hremove (absurd hready)
    (fun _ goal _ => ?_) fun _ outcome other houtcome =>
      houtcome.andThen (.checkAndAnnounce outcome.story other name)
  refine .of_silent (fun before => (shownAfterAll_append _ _).trans ?_) ?_
  · rw [shownAfterAll_refresh]
    cases goal.isHeader <;> simp [shownAfterAll, shownAfter, Ne.symm hne]
  · exact (reportsOn?_refresh _ true name).trans
      ((reportsOn?_drop story removed name).trans (if_neg hne))

/-- Taking out a goal announces nothing in a story that is not ready. -/
theorem events_remove {outcome : Outcome} {removed : String}
    (hremove : story.remove? removed = some outcome) (hnot : ¬ story.isReady) :
    outcome.events = [] :=
  remove_induction (P := fun outcome => outcome.events = []) hremove (fun _ => rfl)
    (fun hready => absurd hready hnot) fun hready => absurd hready hnot

/-- When a story is finished every goal is announced. -/
theorem shown_finish (hphase : story.phase = .initializing) (name : String)
    (before : List Diagnostic) :
    shownAfterAll name before story.finish.events
      = (story.finish.story.reportsOn? name).getD before := by
  have hevents : ∃ goals, story.finish.events = .ready goals :: .treeChanged
      :: story.finish.story.goals.names.flatMap story.finish.story.announce := by
    unfold Story.finish
    rw [if_pos hphase]
    exact ⟨_, rfl⟩
  obtain ⟨goals, hevents⟩ := hevents
  rw [hevents]
  refine (shownAfterAll_flatMap_announce _ _ before).trans ?_
  split
  · rfl
  · next hmem =>
    have hnone : story.finish.story.goals.get? name = none := by
      rw [← GoalList.isSome_get?_iff] at hmem
      simpa using hmem
    rw [reportsOn?_eq, hnone]
    rfl

/-- A story that was being loaded is ready when it is finished. -/
theorem phase_finish_of_initializing (hphase : story.phase = .initializing) :
    story.finish.story.phase = .ready := by
  unfold Story.finish
  rw [if_pos hphase]
  rfl

end Story

/-- Whether a request asks to take out a goal. -/
def StoryRequest.isRemoval (name : String) : StoryRequest → Bool
  | remove removed => removed == name
  | _ => false

namespace Controller

variable {story started : Story} {name : String} {before : List Diagnostic}
  {request : StoryRequest} {requests : List StoryRequest}

/-- Goals that are loaded before the story is ready are not announced. -/
theorem shown_serveLoad (hnot : story.phase ≠ .ready) (goal : PendingGoal) (name : String)
    (before : List Diagnostic) :
    shownAfterAll name before (serveLoad story goal).events = before := by
  cases hcontent : goal.source.content with
  | error reason =>
    rw [serveLoad_of_unreadable hcontent]
    rfl
  | ok text =>
    rw [serveLoad_of_content hcontent]
    have hisReady : ¬ story.isReady := by simpa [Story.isReady] using hnot
    have hnone := Story.events_update hisReady
      goal.source.name goal.source.uri text goal.origin
    exact congrArg (shownAfterAll name before) hnone

/-- Nothing is shown while goals are being loaded. -/
theorem shown_loadAll (hnot : story.phase ≠ .ready) (goals : List PendingGoal) (name : String)
    (before : List Diagnostic) :
    shownAfterAll name before (loadAll story goals).events = before := by
  induction goals generalizing story with
  | nil => rfl
  | cons goal rest ih =>
    rw [loadAll_cons]
    refine (shownAfterAll_append _ _).trans ?_
    rw [shown_serveLoad hnot]
    exact ih ((phase_serveLoad story goal).trans_ne hnot)

/-- What comes of a load of a whole story that can be started. -/
theorem apply_loadStory {inputs : StoryInputs} (hstart : startStory story inputs = .ok started) :
    (apply story (.loadStory inputs)).story.phase = .ready
      ∧ ∀ name before, shownAfterAll name before (apply story (.loadStory inputs)).events
        = ((apply story (.loadStory inputs)).story.reportsOn? name).getD before := by
  have happly : apply story (.loadStory inputs)
      = (loadAll started inputs.pendingGoals).andThen Story.finish := by
    simp only [apply, hstart]
  have hstarted := phase_startStory hstart
  have hloaded := (phase_loadAll started inputs.pendingGoals).trans hstarted
  rw [happly]
  refine ⟨Story.phase_finish_of_initializing hloaded, fun name before => ?_⟩
  refine (shownAfterAll_append _ _).trans ?_
  rw [shown_loadAll (hstarted.trans_ne (by decide))]
  exact Story.shown_finish hloaded name before

/-- A goal that was removed by request is shown without reports. All others are shown with theirs. -/
theorem shown_apply_remove (hready : story.isReady) (removed : String)
    (hbefore : ∀ reports ∈ story.reportsOn? name, before = reports) :
    shownAfterAll name before (apply story (.remove removed)).events
      = ((apply story (.remove removed)).story.reportsOn? name).getD
          (if removed = name ∧ (story.reportsOn? name).isSome then [] else before) := by
  show shownAfterAll name before ((story.remove? removed).getD { story }).events
    = (((story.remove? removed).getD { story }).story.reportsOn? name).getD _
  cases hremove : story.remove? removed with
  | none =>
    -- There is no such goal.
    have hnone : story.goals.get? removed = none := by
      simpa [Story.remove?] using hremove
    rw [if_neg]
    · exact (Outcome.Follows.refl story name).shows before hbefore
    · rintro ⟨rfl, hsome⟩
      simp [Story.reportsOn?_eq, hnone] at hsome
  | some outcome =>
    by_cases hname : name = removed
    · subst hname
      obtain ⟨hnone, hevents⟩ := Story.shown_remove hremove hready
      simp only [Option.getD_some, hevents, hnone, Option.getD_none, true_and]
    · have hfollows := Story.follows_remove hremove hready hname
      rw [if_neg fun hboth => hname hboth.1.symm]
      exact hfollows.shows before hbefore

/-- **What a request does to what is shown.** Where there is an own goal after the request, its
reports are shown. Where there is none, only a request to take it out clears what is shown. -/
theorem shown_apply (hready : (apply story request).story.phase = .ready)
    (hbefore : story.phase = .ready → ∀ reports ∈ story.reportsOn? name, before = reports) :
    shownAfterAll name before (apply story request).events
      = ((apply story request).story.reportsOn? name).getD
          (if request.isRemoval name ∧ (story.reportsOn? name).isSome then [] else before) := by
  -- Each request announces what it has checked; what is neither announced nor cleared stays as it
  -- was shown.
  cases request with
  | loadStory inputs =>
    cases hstart : startStory story inputs with
    | ok started => exact (apply_loadStory hstart).2 name before
    | error error =>
      simp only [apply, hstart] at hready ⊢
      exact (Outcome.Follows.of_silent (fun _ => rfl) rfl).shows before (hbefore hready)
  | loadGoal goal =>
    have hold : story.phase = .ready := (phase_serveLoad story goal).symm.trans hready
    show shownAfterAll name before (serveLoad story goal).events
      = ((serveLoad story goal).story.reportsOn? name).getD before
    cases hcontent : goal.source.content with
    | error reason =>
      rw [serveLoad_of_unreadable hcontent]
      exact (Outcome.Follows.of_silent (fun _ => rfl) rfl).shows before (hbefore hold)
    | ok text =>
      rw [serveLoad_of_content hcontent]
      exact Story.shown_update (by simp [Story.isReady, hold]) _ _ text _ (hbefore hold)
  | update changed uri text =>
    have hold : story.phase = .ready := (story.phase_update _ _ _ _).symm.trans hready
    exact Story.shown_update (by simp [Story.isReady, hold]) _ _ text _ (hbefore hold)
  | query | subscribe => exact (Outcome.Follows.refl story name).shows before (hbefore hready)
  | remove removed =>
    have hold : story.phase = .ready := (phase_apply_remove story removed).symm.trans hready
    have hshown := shown_apply_remove (by simp [Story.isReady, hold]) removed (hbefore hold)
    rw [hshown]
    simp only [StoryRequest.isRemoval, beq_iff_eq]

/-- Before a story is loaded nothing is shown. -/
theorem shown_apply_of_not_ready (hnot : (apply story request).story.phase ≠ .ready)
    (hphase : story.phase ≠ .ready) :
    shownAfterAll name before (apply story request).events = before := by
  have hisReady : ¬ story.isReady := by simpa [Story.isReady] using hphase
  cases request with
  | loadStory inputs =>
    cases hstart : startStory story inputs with
    | ok started => exact absurd (apply_loadStory hstart).1 hnot
    | error error =>
      simp only [apply, hstart]
      rfl
  | loadGoal goal => exact shown_serveLoad hphase goal name before
  | update changed uri text =>
    exact congrArg (shownAfterAll name before) (Story.events_update hisReady changed uri text _)
  | query | subscribe => rfl
  | remove removed =>
    show shownAfterAll name before ((story.remove? removed).getD { story }).events = before
    cases hremove : story.remove? removed with
    | none => rfl
    | some outcome =>
      exact congrArg (shownAfterAll name before) (Story.events_remove hremove hisReady)

/-- A story that is loaded stays so. -/
theorem ready_apply (hready : story.phase = .ready) (request : StoryRequest) :
    (apply story request).story.phase = .ready := by
  cases request with
  | loadStory inputs =>
    cases hstart : startStory story inputs with
    | ok started => exact (apply_loadStory hstart).1
    | error error =>
      simp only [apply, hstart]
      exact hready
  | loadGoal goal => exact (phase_serveLoad story goal).trans hready
  | update changed uri text => exact (story.phase_update _ _ _ _).trans hready
  | query | subscribe => exact hready
  | remove removed => exact (phase_apply_remove story removed).trans hready

/-! ## Goals that go without a word

Whether a goal is forsaken depends on the whole row of requests, but it can be followed request by
request: it becomes so when it goes with reports, and ceases to be so when it is shown again. -/

/-- The story that requests leave to a controller that started with none. -/
def storyAfter (requests : List StoryRequest) : Story :=
  ({ queue := requests } : Controller).drain.story

/-- What is announced in the course of requests. -/
def eventsAfter (requests : List StoryRequest) : List StoryEvent :=
  ({ queue := requests } : Controller).drain.events

/-- A goal with reports went, though no request asked to take it out, and it did not come back. -/
def Forsaken (requests : List StoryRequest) (name : String) : Prop :=
  ∃ earlier request later, requests = earlier ++ request :: later
    ∧ (storyAfter earlier).phase = .ready
    ∧ (∃ reports, (storyAfter earlier).reportsOn? name = some reports ∧ reports ≠ [])
    ∧ request.isRemoval name = false
    ∧ ∀ more, more <+: later → (storyAfter (earlier ++ request :: more)).reportsOn? name = none

/-- The story and the events after one request more. -/
theorem after_append (requests : List StoryRequest) (request : StoryRequest) :
    storyAfter (requests ++ [request]) = (apply (storyAfter requests) request).story
      ∧ eventsAfter (requests ++ [request])
        = eventsAfter requests ++ (apply (storyAfter requests) request).events := by
  have hphase : ({} : Story).phase ≠ .initializing := by decide
  have hstory (requests : List StoryRequest) : storyAfter requests = (applyAll {} requests).story :=
    congrArg Outcome.story (toOutcome_run hphase requests)
  have hevents (requests : List StoryRequest) :
      eventsAfter requests = (applyAll {} requests).events :=
    congrArg Outcome.events (toOutcome_run hphase requests)
  rw [hstory, hstory, hevents, hevents, applyAll_append]
  show (applyAll (applyAll {} requests).story [request]).story = _
    ∧ _ ++ (applyAll (applyAll {} requests).story [request]).events = _
  rw [applyAll_singleton]
  exact ⟨rfl, rfl⟩

/-- In the beginning the story is empty. -/
theorem phase_storyAfter_nil : (storyAfter []).phase = .empty := by
  rw [storyAfter, drain, run_done]

/-- A goal is forsaken by the last request, or it was before and is still away. -/
theorem forsaken_append : Forsaken (requests ++ [request]) name ↔
    (storyAfter (requests ++ [request])).reportsOn? name = none
      ∧ (Forsaken requests name
        ∨ (storyAfter requests).phase = .ready
          ∧ (∃ reports, (storyAfter requests).reportsOn? name = some reports ∧ reports ≠ [])
          ∧ request.isRemoval name = false) := by
  constructor
  · rintro ⟨earlier, cause, later, hsplit, hready, hreports, hcause, haway⟩
    -- Either the last request is the one that put the goal out, or it came later.
    induction later using List.reverseRecOn with
    | nil =>
      obtain ⟨rfl, hlast⟩ := List.append_inj' hsplit rfl
      obtain rfl : request = cause := by simpa using hlast
      exact ⟨haway [] List.nil_prefix, .inr ⟨hready, hreports, hcause⟩⟩
    | append_singleton later last _ =>
      rw [← List.cons_append, ← List.append_assoc] at hsplit
      obtain ⟨rfl, hlast⟩ := List.append_inj' hsplit rfl
      obtain rfl : request = last := by simpa using hlast
      refine ⟨?_, .inl ⟨earlier, cause, later, rfl, hready, hreports, hcause, fun more hmore => ?_⟩⟩
      · simpa using haway _ List.prefix_rfl
      · exact haway more (hmore.trans (List.prefix_append _ _))
  · rintro ⟨hnow, ⟨earlier, cause, later, rfl, hready, hreports, hcause, haway⟩ |
      ⟨hready, hreports, hrequest⟩⟩
    · refine ⟨earlier, cause, later ++ [request], by simp, hready, hreports, hcause,
        fun more hmore => ?_⟩
      rcases List.prefix_concat_iff.1 hmore with rfl | hmore
      · simpa using hnow
      · exact haway more hmore
    · refine ⟨requests, request, [], rfl, hready, hreports, hrequest, fun more hmore => ?_⟩
      rw [List.prefix_nil.1 hmore]
      exact hnow

/-- A forsaken goal is not in the story. -/
theorem Forsaken.away (hforsaken : Forsaken requests name) :
    (storyAfter requests).reportsOn? name = none := by
  obtain ⟨earlier, request, later, rfl, -, -, -, haway⟩ := hforsaken
  exact haway later List.prefix_rfl

/-- Before a story is loaded nothing is shown and nothing can be forsaken. -/
theorem nothing_shown (hnot : (storyAfter requests).phase ≠ .ready) (name : String) :
    shown (eventsAfter requests) name = [] ∧ ¬ Forsaken requests name := by
  induction requests using List.reverseRecOn with
  | nil =>
    refine ⟨?_, fun ⟨earlier, request, later, hsplit, _⟩ => ?_⟩
    · rw [eventsAfter, drain, run_done]
      rfl
    · simp at hsplit
  | append_singleton requests request ih =>
    obtain ⟨hstory, hevents⟩ := after_append requests request
    rw [hstory] at hnot
    have hbefore : (storyAfter requests).phase ≠ .ready := fun hready =>
      hnot (ready_apply hready request)
    obtain ⟨hshown, hforsaken⟩ := ih hbefore
    refine ⟨?_, fun hnow => ?_⟩
    · rw [hevents, shown_append, hshown, shown_apply_of_not_ready hnot hbefore]
    · rcases (forsaken_append.1 hnow).2 with hearlier | ⟨hready, -⟩
      · exact hforsaken hearlier
      · exact hbefore hready

/-- **What is shown between requests**: for a goal that the story holds, what there is to report; for
one that it does not hold, something just if the goal is forsaken. -/
theorem shown_between (hready : (storyAfter requests).phase = .ready) (name : String) :
    (∀ reports ∈ (storyAfter requests).reportsOn? name,
        shown (eventsAfter requests) name = reports)
      ∧ ((storyAfter requests).reportsOn? name = none →
        (shown (eventsAfter requests) name ≠ [] ↔ Forsaken requests name)) := by
  -- From the last request backwards, with what was shown before it from the hypothesis.
  induction requests using List.reverseRecOn with
  | nil =>
    rw [phase_storyAfter_nil] at hready
    cases hready
  | append_singleton requests request ih =>
    obtain ⟨hstory, hevents⟩ := after_append requests request
    rw [hstory] at hready
    have hshown : shown (eventsAfter (requests ++ [request])) name
        = ((storyAfter (requests ++ [request])).reportsOn? name).getD
          (if request.isRemoval name ∧ ((storyAfter requests).reportsOn? name).isSome then []
            else shown (eventsAfter requests) name) := by
      rw [hevents, shown_append, hstory]
      exact shown_apply hready fun hbefore => (ih hbefore).1
    refine ⟨fun reports hreports => by rw [hshown, hreports, Option.getD_some], fun hnone => ?_⟩
    rw [hshown, hnone, Option.getD_none, forsaken_append, and_iff_right hnone]
    by_cases hbefore : (storyAfter requests).phase = .ready
    · -- A goal that was away stays as it was; one that was there is forsaken now or was cleared.
      obtain ⟨hheld, haway⟩ := ih hbefore
      cases hcase : (storyAfter requests).reportsOn? name with
      | none => simpa using haway hcase
      | some reports =>
        have hnot : ¬ Forsaken requests name := fun hforsaken => by
          simp [hforsaken.away] at hcase
        rw [hheld reports hcase]
        cases hremoval : request.isRemoval name <;> simp [hnot, hbefore]
    · obtain ⟨hnothing, hnot⟩ := nothing_shown hbefore name
      simp [hnothing, hnot, hbefore]

/-- **A client that listens from the start shows what there is to report**, and nothing for a goal
that is not there, just if that goal is not forsaken. -/
theorem shown_iff_not_forsaken (requests : List StoryRequest) (name : String)
    (hready : ({ queue := requests } : Controller).drain.story.phase = .ready) :
    let service := ({ queue := requests } : Controller).drain
    shown service.events name = (service.story.reportsOn? name).getD []
      ↔ ¬ Forsaken requests name := by
  intro service
  obtain ⟨hheld, haway⟩ := shown_between hready name
  show shown (eventsAfter requests) name = ((storyAfter requests).reportsOn? name).getD [] ↔ _
  cases hcase : (storyAfter requests).reportsOn? name with
  | none => exact (not_iff_comm.1 (haway hcase)).symm
  | some reports =>
    refine iff_of_true (hheld reports hcase) fun hforsaken => ?_
    simp [hforsaken.away] at hcase

/-- A request to load a story with an empty header and the given goals. -/
def loading (goals : List TextSource) : StoryRequest :=
  .loadStory { header := .inMemory "story_header" "", goals }

/-- A goal that lacks its end. -/
def unfinished : TextSource := .inMemory "A" "INITSECTION KBSECTION EXITSECTION"

/-- When a story was loaded once, nothing is forsaken. -/
theorem loaded_goals_are_shown :
    let service := ({ queue := [loading [unfinished]] } : Controller).drain
    service.story.phase = .ready
      ∧ ∀ name, shown service.events name = (service.story.reportsOn? name).getD [] := by
  intro service
  have hservice : service.toOutcome = applyAll {} [loading [unfinished]] :=
    toOutcome_run (by decide) _
  have hready : service.story.phase = .ready := by
    rw [hservice]
    decide +kernel
  refine ⟨hready, fun name => (shown_iff_not_forsaken _ name hready).2 fun hforsaken => ?_⟩
  have hforsaken : Forsaken ([] ++ [loading [unfinished]]) name := hforsaken
  have hnothing : (storyAfter []).phase ≠ .ready := phase_storyAfter_nil.trans_ne nofun
  rcases (forsaken_append.1 hforsaken).2 with hearlier | ⟨hbefore, -⟩
  · exact (nothing_shown hnothing name).2 hearlier
  · exact hnothing hbefore

/-- **A story that is loaded anew without a goal leaves the reports of that goal on the screen.** -/
theorem reloading_leaves_reports_shown :
    let service := ({ queue := [loading [unfinished], loading []] } : Controller).drain
    service.story.phase = .ready ∧ service.story.reportsOn? "A" = none
      ∧ shown service.events "A" ≠ [] := by
  intro service
  have hservice : service.toOutcome = applyAll {} [loading [unfinished], loading []] :=
    toOutcome_run (by decide) _
  rw [hservice]
  decide +kernel

end Controller

end StoryCheck
