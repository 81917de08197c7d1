import StoryCheck.GoalTree
import StoryCheck.Symbol.Table
import StoryCheck.Syntax.GoalGrammar
/-!
# Goals of a story

A goal that was read: its text, the tree of it, the symbols it calls, and what there is to report.
Reports come in two parts that change at different times: those of reading stay as long as the
text does, those of checking are replaced by every check.
-/

namespace StoryCheck

open Syntax

/-- Where a goal comes from. -/
inductive GoalOrigin where
  /-- Made from a goal in the header. -/
  | header
  /-- Taken over from a dependency. -/
  | shared
  | local
deriving DecidableEq, Repr, Inhabited

/-- A goal of a story. -/
structure StoryGoal where
  name : String
  uri : String
  text : String
  origin : GoalOrigin
  tree : Goal
  /-- The symbols it calls. -/
  calls : CallTable := []
  weight : Nat := Weights.unranked
  /-- What reading the text reports. -/
  readingReports : List Diagnostic
  /-- What the last check reports. -/
  checkReports : List Diagnostic := []
deriving DecidableEq, Repr, Inhabited

namespace StoryGoal

/-- Reads a text as a goal that calls nothing so far. -/
def ofText (name uri text : String) (origin : GoalOrigin) : StoryGoal :=
  let parsed := parseGoal text
  { name, uri, text, origin
    tree := parsed.tree
    readingReports := parsed.diagnostics.map (·.inFile uri) }

/-- The goals it names as its parents. -/
def parents (goal : StoryGoal) : List String := goal.tree.parentEdges.map (·.1)

/-- Whether it was made from a goal in the header. -/
def isHeader (goal : StoryGoal) : Bool := goal.origin == .header

/-- Whether it belongs to other projects too. -/
def isShared (goal : StoryGoal) : Bool := goal.origin != .local

/-- Number of lines of the text. -/
def lineCount (goal : StoryGoal) : Nat := (LineIndex.ofText goal.text).lineCount

/-- Everything there is to report, reading first. -/
def diagnostics (goal : StoryGoal) : List Diagnostic := goal.readingReports ++ goal.checkReports

/-- The goal as the tree sees it. -/
def toNode (goal : StoryGoal) : GoalNode :=
  { name := goal.name, parents := goal.parents, isShared := goal.isShared }

/-- Whether a goal has the weight that it is given. -/
def isRankedBy (weights : Weights) (goal : StoryGoal) : Bool := goal.weight == weights.of goal.name

/-- The goal with the weight that it is given. -/
def rankBy (weights : Weights) (goal : StoryGoal) : StoryGoal :=
  { goal with weight := weights.of goal.name }

end StoryGoal

/-! ## Goals by name -/

/-- Goals in the order in which they came up. A name stands in it once. -/
structure GoalList where
  goals : List StoryGoal := []
deriving DecidableEq, Repr, Inhabited

namespace GoalList

/-- The goal of a name. -/
def get? (list : GoalList) (name : String) : Option StoryGoal :=
  list.goals.find? fun goal => goal.name == name

/-- Whether there is a goal of a name. -/
def contains (list : GoalList) (name : String) : Bool := (list.get? name).isSome

/-- Number of goals. -/
def size (list : GoalList) : Nat := list.goals.length

/-- The names of the goals. -/
def names (list : GoalList) : List String := list.goals.map (·.name)

/-- Changes every goal. -/
def map (list : GoalList) (f : StoryGoal → StoryGoal) : GoalList := ⟨list.goals.map f⟩

/-- Changes the goal of a name. -/
def modify (list : GoalList) (name : String) (f : StoryGoal → StoryGoal) : GoalList :=
  list.map fun goal => if goal.name = name then f goal else goal

/-- Puts in a goal, in place of the one of that name or else at the end. -/
def put (list : GoalList) (goal : StoryGoal) : GoalList :=
  if list.contains goal.name then list.modify goal.name fun _ => goal
  else ⟨list.goals ++ [goal]⟩

/-- Takes out the goal of a name. -/
def erase (list : GoalList) (name : String) : GoalList :=
  ⟨list.goals.filter fun goal => goal.name != name⟩

/-- The goals that were not made from the header, in order. -/
def ownGoals (list : GoalList) : List StoryGoal := list.goals.filter fun goal => !goal.isHeader

/-- The goals as the tree sees them. -/
def graph (list : GoalList) : GoalGraph := ⟨list.goals.map (·.toNode)⟩

/-- The tree of the goals. -/
def forest (list : GoalList) : List GoalTree := list.graph.forest

/-- The weight of every goal. -/
def weights (list : GoalList) : Weights := list.graph.weights

/-- Whether every goal has the weight that it is given. -/
def isRankedBy (list : GoalList) (weights : Weights) : Bool :=
  list.goals.all (·.isRankedBy weights)

/-- The goals with the weights that they are given. -/
def rankBy (list : GoalList) (weights : Weights) : GoalList := list.map (·.rankBy weights)

end GoalList

end StoryCheck
