import Mathlib.Data.List.Induction
import StoryCheck.Controller
import StoryCheck.Proofs.Story.Upkeep

/-!
# Requests as atomic steps

A request to load a story is served in parts, with a backlog that goes ahead of all that waits and a
look at the story after every part. To whoever sends requests this does not show: it is as if each
request was done in one go when its turn comes.

* **`apply`**, **`applyAll`** — requests done in one go, one after the other.
* **`run_append`** — it does not matter when requests come in, only in which order.
* **`run_backlog`** — once a story is being loaded, its goals are loaded and it is finished before
  anything else is looked at.
* **`requests_are_atomic`** — what each request finds, and what is handed back at the end.
-/

namespace StoryCheck

namespace Outcome

variable {outcome : Outcome} {f g : Story → Outcome}

/-- A story to which nothing has happened goes straight on. -/
@[simp] theorem andThen_of_story (story : Story) : ({ story } : Outcome).andThen f = f story := by
  simp [andThen]

/-- It does not matter how steps are bracketed. -/
theorem andThen_assoc :
    (outcome.andThen f).andThen g = outcome.andThen fun story => (f story).andThen g := by
  simp [andThen, List.append_assoc]

end Outcome

/-! ## How far a story is after a change

A story is nothing, initializing or ready. Only starting and finishing a load move it on, and the
queue is served differently according to that, so each change is asked for the phase it leads to. -/

namespace Story

variable {story : Story} {outcome : Outcome}

/-- Refreshing a story leaves its phase. -/
@[simp] theorem phase_refresh (story : Story) (treeHasChanged : Bool) :
    (story.refresh treeHasChanged).story.phase = story.phase := rfl

/-- Entering a goal leaves the phase of a story. -/
@[simp] theorem phase_update (story : Story) (name uri text : String) (origin : GoalOrigin) :
    (story.update name uri text origin).story.phase = story.phase := by
  unfold Story.update
  split <;> rfl

/-- Taking a goal out leaves the phase of a story. -/
theorem phase_remove {name : String} (hremove : story.remove? name = some outcome) :
    outcome.story.phase = story.phase :=
  remove_induction (P := fun outcome => outcome.story.phase = story.phase) hremove (fun _ => rfl)
    (fun _ _ _ => rfl) fun _ _ _ houtcome => houtcome

/-- A story that was finished is not being loaded any more. -/
theorem phase_finish (story : Story) : story.finish.story.phase ≠ .initializing := by
  unfold Story.finish
  split
  · nofun
  · assumption

/-- One that was started anew is. -/
theorem phase_restart {inputs : StoryInputs} {started : Story}
    (hrestart : story.restart inputs = .ok started) : started.phase = .initializing := by
  rw [restart_eq_start] at hrestart
  obtain ⟨header, types, -, hloading⟩ := isLoading_start hrestart
  exact hloading.initializing

end Story

/-- The header can be read, and every directory is there that the story depends on. -/
def StoryInputs.IsLoadable (inputs : StoryInputs) : Prop :=
  (∃ text, inputs.header.content = .ok text) ∧ ∀ d ∈ inputs.dependencies, d.isPresent = true

namespace Controller

/-! ## Loading a goal

All that is said of a load rests on these two cases; nothing further on looks into one. -/

section Load

variable {story : Story} {goal : PendingGoal}

/-- A goal that can be read is entered with its text, under the name and the address of its source. -/
theorem serveLoad_of_content {text : String} (hcontent : goal.source.content = .ok text) :
    serveLoad story goal
      = story.update goal.source.name goal.source.uri text goal.origin := by
  simp [serveLoad, Story.loadGoal, TextSource.goalText, hcontent, Except.map]

/-- **A source that cannot be read changes nothing.** One error is announced, which names the address
and the reason. -/
theorem serveLoad_of_unreadable {reason : ReadError} (hcontent : goal.source.content = .error reason) :
    serveLoad story goal
      = { story, events := [.error (StoryError.unreadableGoal goal.source.uri reason).message] } := by
  simp [serveLoad, Story.loadGoal, TextSource.goalText, hcontent, Except.map, failed]

end Load

/-! ## Requests in one go

What a request does when nothing comes between its parts. Loading a story then loads each of its
goals and finishes at once, without a queue. -/

/-- Loads goals one after the other. -/
def loadAll (story : Story) (goals : List PendingGoal) : Outcome :=
  goals.foldl (fun outcome goal => outcome.andThen fun story => serveLoad story goal) { story }

/-- Does what a request asks for in one go. -/
def apply (story : Story) : StoryRequest → Outcome
  | .loadStory inputs =>
    match startStory story inputs with
    | .ok started => (loadAll started inputs.pendingGoals).andThen Story.finish
    | .error error => failed story error
  | request => (serve story request).1

/-- Does what requests ask for, one after the other. -/
def applyAll (story : Story) (requests : List StoryRequest) : Outcome :=
  requests.foldl (fun outcome request => outcome.andThen fun story => apply story request) { story }

variable {story started : Story} {goal : PendingGoal} {backlog : List PendingGoal}
  {request : StoryRequest} {requests queue : List StoryRequest} {service : Service}

/-- Steps one after the other from an outcome are steps from its story, with its events in front. -/
theorem foldl_andThen {α : Type} (step : Story → α → Outcome) (items : List α) (outcome : Outcome) :
    items.foldl (fun outcome item => outcome.andThen fun story => step story item) outcome
      = outcome.andThen fun story =>
          items.foldl (fun outcome item => outcome.andThen fun story => step story item) { story } := by
  -- The outcome is arbitrary, for it grows from item to item.
  induction items generalizing outcome with
  | nil => simp [Outcome.andThen]
  | cons item rest ih =>
    simp only [List.foldl_cons, Outcome.andThen_of_story]
    rw [ih, Outcome.andThen_assoc]
    congr 1
    funext story
    exact (ih (step story item)).symm

/-- The first goal is loaded first. -/
theorem loadAll_cons (story : Story) (goal : PendingGoal) (goals : List PendingGoal) :
    loadAll story (goal :: goals)
      = (serveLoad story goal).andThen fun story => loadAll story goals := by
  show goals.foldl _ (({ story } : Outcome).andThen fun story => serveLoad story goal) = _
  rw [foldl_andThen, Outcome.andThen_of_story]
  rfl

/-- Requests can be done in two parts. -/
theorem applyAll_append (first second : List StoryRequest) :
    applyAll story (first ++ second)
      = (applyAll story first).andThen fun story => applyAll story second := by
  rw [applyAll, List.foldl_append, foldl_andThen]
  rfl

/-- One request is done by itself. -/
theorem applyAll_singleton : applyAll story [request] = apply story request :=
  Outcome.andThen_of_story (f := (apply · request)) story

/-! ## How far the story is

Only the start of a load makes a story one that is being loaded, and each load is finished in the
same go. So no request that is done in one go leaves such a story behind. -/

/-- Starting a story for a request succeeds just if the story can be started. -/
theorem startStory_eq_ok {inputs : StoryInputs} :
    startStory story inputs = .ok started ↔ Story.start inputs = .ok started := by
  rw [startStory, Story.restart_eq_start]
  cases htext : inputs.headerText with
  | ok text => rfl
  | error error =>
    -- Without a header nothing can be started, whatever is looked at first.
    refine iff_of_false nofun fun hstart => ?_
    rw [Story.start, Story.restart, StoryInputs.check, htext] at hstart
    cases hdependency : inputs.dependencies.find? (!·.isPresent) <;> simp [hdependency] at hstart
    all_goals cases hstart

/-- A story that was started is being loaded. -/
theorem phase_startStory {inputs : StoryInputs} (hstart : startStory story inputs = .ok started) :
    started.phase = .initializing := by
  rw [startStory_eq_ok, ← Story.restart_eq_start started] at hstart
  exact Story.phase_restart hstart

/-- What keeps a story from being loaded. -/
theorem exists_startStory (story : Story) {inputs : StoryInputs} :
    (∃ started, startStory story inputs = .ok started) ↔ inputs.IsLoadable := by
  have hheader : (∃ text, inputs.headerText = .ok text) ↔ ∃ text, inputs.header.content = .ok text := by
    unfold StoryInputs.headerText
    cases inputs.header.content <;> simp
  have hdependencies : (∃ text, inputs.check = .ok text) ↔
      (∃ text, inputs.headerText = .ok text) ∧ ∀ d ∈ inputs.dependencies, d.isPresent = true := by
    unfold StoryInputs.check
    cases hmissing : inputs.dependencies.find? (!·.isPresent) with
    | none =>
      have hall : ∀ d ∈ inputs.dependencies, d.isPresent = true := by simpa using hmissing
      exact ⟨fun h => ⟨h, hall⟩, fun h => h.1⟩
    | some d =>
      refine iff_of_false nofun fun h => ?_
      have hpresent := h.2 d (List.mem_of_find?_eq_some hmissing)
      have hmissing := List.find?_some hmissing
      simp [hpresent] at hmissing
  simp only [startStory_eq_ok, Story.start, Story.restart]
  rw [StoryInputs.IsLoadable, ← hheader, ← hdependencies]
  cases inputs.check with
  | ok text => exact iff_of_true ⟨_, rfl⟩ ⟨text, rfl⟩
  | error error => exact iff_of_false nofun nofun

/-- Loading a goal leaves the phase, whether the goal could be read or not. -/
theorem phase_serveLoad (story : Story) (goal : PendingGoal) :
    (serveLoad story goal).story.phase = story.phase := by
  cases hcontent : goal.source.content with
  | error reason => rw [serveLoad_of_unreadable hcontent]
  | ok text =>
    rw [serveLoad_of_content hcontent]
    exact story.phase_update _ _ _ _

/-- So does loading several. -/
theorem phase_loadAll (story : Story) (goals : List PendingGoal) :
    (loadAll story goals).story.phase = story.phase := by
  -- From the front, as they are loaded.
  induction goals generalizing story with
  | nil => rfl
  | cons goal rest ih =>
    rw [loadAll_cons]
    exact (ih _).trans (phase_serveLoad story goal)

/-- Removing a goal by request leaves the phase, also where there is no such goal. -/
theorem phase_apply_remove (story : Story) (name : String) :
    (apply story (.remove name)).story.phase = story.phase := by
  show ((story.remove? name).getD { story }).story.phase = story.phase
  cases hremove : story.remove? name with
  | none => rfl
  | some outcome => exact Story.phase_remove hremove

/-- A story that is not being loaded is not being loaded after a request either. -/
theorem phase_apply (hphase : story.phase ≠ .initializing) (request : StoryRequest) :
    (apply story request).story.phase ≠ .initializing := by
  cases request with
  | loadStory inputs =>
    show (match startStory story inputs with
      | .ok started => (loadAll started inputs.pendingGoals).andThen Story.finish
      | .error error => failed story error).story.phase ≠ _
    cases startStory story inputs with
    | ok started => exact Story.phase_finish _
    | error error => exact hphase
  | loadGoal goal => exact (phase_serveLoad story goal).trans_ne hphase
  | update name uri text => exact (story.phase_update _ _ _ _).trans_ne hphase
  | remove name => exact (phase_apply_remove story name).trans_ne hphase
  | query | subscribe => exact hphase

/-- Requests that are done in one go never leave a story half loaded. -/
theorem phase_applyAll (hphase : story.phase ≠ .initializing) (requests : List StoryRequest) :
    (applyAll story requests).story.phase ≠ .initializing := by
  induction requests generalizing story with
  | nil => exact hphase
  | cons request rest ih =>
    rw [show request :: rest = [request] ++ rest from rfl, applyAll_append, applyAll_singleton]
    exact ih (phase_apply hphase request)

/-! ## Serving in parts

The service has a story, a backlog of goals to be loaded and a queue of requests. Three equations
say what it does next; everything else about it is derived from these. -/

/-- As long as there is a backlog its first goal is loaded. -/
theorem run_load : run service (goal :: backlog) queue
    = run ⟨settle (service.toOutcome.andThen fun story => serveLoad story goal) backlog,
        service.sightings⟩ backlog queue := by
  rw [run]

/-- Then the next request is served, and it is noted what it has found. -/
theorem run_serve : run service [] (request :: queue)
    = run ⟨settle (service.toOutcome.andThen fun story => (serve story request).1)
          (serve service.story request).2,
        service.sightings ++ [⟨request, service.story, service.events⟩]⟩
      (serve service.story request).2 queue := by
  rw [run]
  rfl

/-- With neither left the service is done. -/
theorem run_done : run service [] [] = service := by
  rw [run]

/-- It does not matter when requests come in: what comes later may as well come when the rest is
done. -/
theorem run_append (service : Service) (backlog : List PendingGoal)
    (first second : List StoryRequest) :
    run service backlog (first ++ second) = run (run service backlog first) [] second := by
  fun_induction run service backlog first with
  | case1 service queue goal backlog loaded ih => exact run_load.trans ih
  | case2 service request queue served backlog hserve outcome sighting ih =>
    rw [List.cons_append, run_serve, hserve]
    refine Eq.trans ?_ ih
    simp only [Outcome.andThen, hserve]
    rfl
  | case3 service => rfl

/-- Every request that is served has found something, in order. -/
theorem exists_sightings (service : Service) (backlog : List PendingGoal)
    (queue : List StoryRequest) :
    ∃ more, (run service backlog queue).sightings = service.sightings ++ more
      ∧ more.length = queue.length := by
  fun_induction run service backlog queue with
  | case1 service queue goal backlog loaded ih => exact ih
  | case2 service request queue served backlog hserve outcome sighting ih =>
    obtain ⟨more, hmore, hlength⟩ := ih
    exact ⟨sighting :: more, by rw [hmore, List.append_assoc]; rfl, by simp [hlength]⟩
  | case3 service => exact ⟨[], (List.append_nil _).symm, rfl⟩

/-- **A story that is being loaded is loaded to its end** before anything that waits. -/
theorem run_backlog (hphase : service.story.phase = .initializing) :
    run service (goal :: backlog) []
      = ⟨service.toOutcome.andThen fun story =>
            (loadAll story (goal :: backlog)).andThen Story.finish,
          service.sightings⟩ := by
  induction backlog generalizing service goal with
  | nil =>
    rw [run_load, run_done]
    simp only [settle, List.isEmpty_nil, if_true, loadAll_cons, Outcome.andThen_assoc]
    simp [loadAll]
  | cons next rest ih =>
    rw [run_load]
    simp only [settle, List.isEmpty_cons, Bool.false_eq_true, if_false]
    rw [ih ((phase_serveLoad service.story goal).trans hphase)]
    simp only [Outcome.andThen_assoc, loadAll_cons _ goal]

/-- **A request is served as if it was done in one go.** -/
theorem run_request (hphase : service.story.phase ≠ .initializing) :
    run service [] [request]
      = ⟨service.toOutcome.andThen fun story => apply story request,
          service.sightings ++ [⟨request, service.story, service.events⟩]⟩ := by
  -- What leaves no backlog is done at once, and there is nothing to finish.
  have hplain (happly : serve service.story request = (apply service.story request, [])) :
      run service [] [request]
        = ⟨service.toOutcome.andThen fun story => apply story request,
            service.sightings ++ [⟨request, service.story, service.events⟩]⟩ := by
    have hfinish := Story.finish_of_ne (phase_apply hphase request)
    rw [run_serve, happly, run_done]
    simp only [settle, List.isEmpty_nil, if_true, Outcome.andThen_assoc]
    simp only [Outcome.andThen, happly, hfinish, List.append_nil]
  cases request with
  | loadGoal | update | remove | query | subscribe => exact hplain rfl
  | loadStory inputs =>
    cases hstart : startStory service.story inputs with
    | error error =>
      refine hplain ?_
      simp only [serve, apply, hstart]
    | ok started =>
      have hserve : serve service.story (.loadStory inputs)
          = ({ story := started }, inputs.pendingGoals) := by
        simp only [serve, hstart]
      have happly : apply service.story (.loadStory inputs)
          = (loadAll started inputs.pendingGoals).andThen Story.finish := by
        simp only [apply, hstart]
      rw [run_serve, hserve]
      cases hpending : inputs.pendingGoals with
      | nil =>
        rw [run_done]
        simp [settle, happly, hserve, hpending, loadAll, Outcome.andThen]
      | cons goal rest =>
        simp only [settle, List.isEmpty_cons, Bool.false_eq_true, if_false]
        rw [run_backlog]
        · simp only [Outcome.andThen, happly, hserve, hpending, List.append_nil]
        · simp only [Outcome.andThen, hserve]
          exact phase_startStory hstart

/-- What becomes of the story is what comes of the requests in one go. -/
theorem toOutcome_run (hphase : story.phase ≠ .initializing) (requests : List StoryRequest) :
    (run ⟨{ story }, []⟩ [] requests).toOutcome = applyAll story requests := by
  -- The last request waits until the others are done, and then finds no load under way.
  induction requests using List.reverseRecOn with
  | nil => rw [run_done]; rfl
  | append_singleton before request ih =>
    have hbefore : (run ⟨{ story }, []⟩ [] before).story.phase ≠ .initializing := by
      rw [ih]
      exact phase_applyAll hphase before
    rw [run_append, run_request hbefore, applyAll_append]
    simp only [ih, applyAll_singleton]

/-- A request finds the story as the requests before it left it. -/
theorem sightings_run (hphase : story.phase ≠ .initializing) (before : List StoryRequest)
    (request : StoryRequest) (after : List StoryRequest) :
    (run ⟨{ story }, []⟩ [] (before ++ request :: after)).sightings[before.length]?
      = some ⟨request, (applyAll story before).story, (applyAll story before).events⟩ := by
  have hbefore := toOutcome_run hphase before
  have hphase' : (run ⟨{ story }, []⟩ [] before).story.phase ≠ .initializing := by
    rw [hbefore]
    exact phase_applyAll hphase before
  obtain ⟨own, hown, hlength⟩ := exists_sightings ⟨{ story }, []⟩ [] before
  -- What comes after the request adds to the end of the list only.
  obtain ⟨more, hmore, -⟩ := exists_sightings (run (run ⟨{ story }, []⟩ [] before) [] [request]) []
    after
  rw [run_append, show request :: after = [request] ++ after from rfl, run_append, hmore,
    run_request hphase', hown, hbefore]
  simp [← hlength]

/-- What a request finds, it finds after some of the requests. -/
theorem exists_before_of_mem (hphase : story.phase ≠ .initializing) {sighting : Sighting}
    (hmem : sighting ∈ (run ⟨{ story }, []⟩ [] requests).sightings) :
    ∃ before, sighting.story = (applyAll story before).story := by
  obtain ⟨index, hlt, hget⟩ := List.getElem_of_mem hmem
  obtain ⟨own, hown, hlength⟩ := exists_sightings ⟨{ story }, []⟩ [] requests
  have hindex : index < requests.length := by
    rw [hown] at hlt
    simpa [hlength] using hlt
  have hsplit : requests = requests.take index ++ requests[index] :: requests.drop (index + 1) := by
    rw [List.getElem_cons_drop, List.take_append_drop]
  have hfound := sightings_run hphase (requests.take index) requests[index]
    (requests.drop (index + 1))
  rw [← hsplit, List.length_take_of_le (Nat.le_of_lt hindex), List.getElem?_eq_getElem hlt, hget,
    Option.some.injEq] at hfound
  exact ⟨requests.take index, by rw [hfound]⟩

/-- **Requests are atomic steps.** Spawn a controller on a story that is not being loaded. Each
request finds the story that all earlier ones left, each done in one go, and so does whoever gets the
story at the end. None finds a story that is being loaded, and what a story is after it was loaded
does not depend on the story before. -/
theorem requests_are_atomic (story : Story) (requests : List StoryRequest)
    (hphase : story.phase ≠ .initializing) :
    let service := ({ story, queue := requests } : Controller).drain
    service.toOutcome = applyAll story requests
      ∧ service.sightings.length = requests.length
      ∧ (∀ before request after, requests = before ++ request :: after →
        service.sightings[before.length]?
          = some ⟨request, (applyAll story before).story, (applyAll story before).events⟩)
      ∧ (∀ sighting ∈ service.sightings, sighting.story.phase ≠ .initializing)
      ∧ ∀ before inputs,
        (inputs.IsLoadable →
          (applyAll story (before ++ [.loadStory inputs])).story
            = (apply {} (.loadStory inputs)).story)
        ∧ (¬ inputs.IsLoadable →
          (applyAll story (before ++ [.loadStory inputs])).story
            = (applyAll story before).story) := by
  intro service
  -- The parts in turn: one go gives the same story and events as request by request; each request
  -- is seen once, in its place, at a moment that is not initializing; and what a load leaves does
  -- not depend on what came before it.
  refine ⟨toOutcome_run hphase requests, ?_, ?_, ?_, fun before inputs => ?_⟩
  · obtain ⟨own, hown, hlength⟩ := exists_sightings ⟨{ story }, []⟩ [] requests
    exact (congrArg List.length hown).trans hlength
  · rintro before request after rfl
    exact sightings_run hphase before request after
  · intro sighting hmem
    obtain ⟨before, hbefore⟩ := exists_before_of_mem hphase hmem
    rw [hbefore]
    exact phase_applyAll hphase before
  · rw [applyAll_append]
    show (inputs.IsLoadable → (applyAll _ [.loadStory inputs]).story = _)
      ∧ (¬ inputs.IsLoadable → (applyAll _ [.loadStory inputs]).story = _)
    rw [applyAll_singleton]
    refine ⟨fun hloadable => ?_, fun hmissing => ?_⟩
    · obtain ⟨started, hstarted⟩ :=
        (exists_startStory (applyAll story before).story).2 hloadable
      have hfresh : startStory {} inputs = .ok started :=
        startStory_eq_ok.2 (startStory_eq_ok.1 hstarted)
      simp only [apply, hstarted, hfresh]
    · cases hstart : startStory (applyAll story before).story inputs with
      | ok started => exact absurd ((exists_startStory _).1 ⟨started, hstart⟩) hmissing
      | error error =>
        simp only [apply, hstart]
        rfl

/-- A look at the story that waits behind a load finds the story loaded. -/
theorem query_finds_a_loaded_story :
    let inputs : StoryInputs :=
      { header := .inMemory "story_header" "", goals := [.inMemory "A" ""] }
    let service := ({ queue := [.loadStory inputs, .query] } : Controller).drain
    ∃ sighting, service.sightings[1]? = some sighting ∧ sighting.story.phase = .ready := by
  intro inputs service
  obtain ⟨-, -, hfound, -⟩ := requests_are_atomic {} [.loadStory inputs, .query] (by decide)
  exact ⟨_, hfound [.loadStory inputs] .query [] rfl, by decide +kernel⟩

end Controller

end StoryCheck
