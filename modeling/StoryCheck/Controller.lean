import StoryCheck.Story
import StoryCheck.Text.Quoted
/-!
# Serving requests

A controller owns a story and serves requests one at a time, in the order in which they came. A
request to load a whole story is served in parts: the header first, then one goal after the other.
These loads form the *backlog*, which goes ahead of all requests that wait. As soon as the backlog
is empty the story is finished, before the next request is looked at.
-/

namespace StoryCheck

/-- What a controller is asked to do. -/
inductive StoryRequest where
  /-- Load a whole story in place of the old one. -/
  | loadStory (inputs : StoryInputs)
  /-- Load a goal from its source. -/
  | loadGoal (goal : PendingGoal)
  /-- Read a new text for a goal. -/
  | update (name uri text : String)
  /-- Take out a goal. -/
  | remove (name : String)
  /-- Look at the story. -/
  | query
  /-- Listen to what is announced from now on. -/
  | subscribe

/-- The word for where a goal comes from. -/
def GoalOrigin.word : GoalOrigin → String
  | header => "Header"
  | shared => "Shared"
  | .local => "Local"

namespace StoryRequest

/-- A request as it is written in a log, without the texts it carries. -/
def display : StoryRequest → String
  | loadStory _ => "Initialize"
  | loadGoal goal =>
    s!"LoadGoal \x7b uri: {Quoted.encode goal.source.uri}, origin: {goal.origin.word} \x7d"
  | update name uri _ =>
    s!"UpdateGoal \x7b name: {Quoted.encode name}, uri: {Quoted.encode uri} \x7d"
  | remove name => s!"RemoveGoal \x7b name: {Quoted.encode name} \x7d"
  | query => "Query"
  | subscribe => "Subscribe"

end StoryRequest

/-- A story with what is still to be served. -/
structure Controller where
  story : Story := {}
  /-- Goals that go ahead of all requests. -/
  backlog : List PendingGoal := []
  queue : List StoryRequest := []

namespace Controller

/-- Puts a request behind the others. -/
def send (controller : Controller) (request : StoryRequest) : Controller :=
  { controller with queue := controller.queue ++ [request] }

/-! ## One request -/

/-- A failure leaves the story as it is and is announced. -/
def failed (story : Story) (error : StoryError) : Outcome :=
  { story, events := [.error error.message] }

/-- Starts to load a story in place of the one there is. The header is read before anything else is
looked at. -/
def startStory (story : Story) (inputs : StoryInputs) : Except StoryError Story :=
  inputs.headerText.bind fun _ => story.restart inputs

/-- Loads a goal. -/
def serveLoad (story : Story) (goal : PendingGoal) : Outcome :=
  match story.loadGoal goal with
  | .ok outcome => outcome
  | .error error => failed story error

/-- Serves a request, with the goals that it puts on the backlog. -/
def serve (story : Story) : StoryRequest → Outcome × List PendingGoal
  | .loadStory inputs =>
    match startStory story inputs with
    | .ok started => ({ story := started }, inputs.pendingGoals)
    | .error error => (failed story error, [])
  | .loadGoal goal => (serveLoad story goal, [])
  | .update name uri text => (story.updateText name uri text, [])
  | .remove name => ((story.remove? name).getD { story }, [])
  | .query | .subscribe => ({ story }, [])

/-- Finishes the story if no goal of it is left to be loaded. -/
def settle (outcome : Outcome) (backlog : List PendingGoal) : Outcome :=
  if backlog.isEmpty then outcome.andThen Story.finish else outcome

/-! ## All requests -/

/-- What a request finds when its turn comes: the story, and what was announced before. -/
structure Sighting where
  request : StoryRequest
  story : Story
  announced : List StoryEvent

/-- What became of the story, and what each request found. -/
structure Service extends Outcome where
  sightings : List Sighting := []

/-- Serves everything that waits, the backlog first. -/
def run (service : Service) : (backlog : List PendingGoal) → (queue : List StoryRequest) → Service
  | goal :: backlog, queue =>
    let loaded := service.toOutcome.andThen fun story => serveLoad story goal
    run { service with toOutcome := settle loaded backlog } backlog queue
  | [], request :: queue =>
    let (served, backlog) := serve service.story request
    let outcome := settle { served with events := service.events ++ served.events } backlog
    let sighting : Sighting := ⟨request, service.story, service.events⟩
    run { toOutcome := outcome, sightings := service.sightings ++ [sighting] } backlog queue
  | [], [] => service
termination_by backlog queue => (queue.length, backlog.length)

/-- What comes of serving everything that waits. -/
def drain (controller : Controller) : Service :=
  run { story := controller.story } controller.backlog controller.queue

end Controller

end StoryCheck
