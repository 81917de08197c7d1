import StoryCheck.Controller
import StoryCheck.Project
/-!
# Following changes of files

What a change of a file means for the story of a project: a goal file is read again or its goal
taken out, and the manifest, the header and the list of objects mean that everything is loaded
anew.
-/

namespace StoryCheck

/-- What a change of a file means. -/
inductive FileChange where
  | updateGoal (name uri text : String)
  | removeGoal (name : String)
  | reload
deriving DecidableEq, Repr, Inhabited

namespace Project

/-- Whether the whole story hangs on a file. -/
def isVital (project : Project) (path : Path) : Bool :=
  path.fileName? == some Manifest.fileName || path.isSame project.header
    || project.instances.any path.isSame

/-- What a change at a path means, if anything. A goal file that cannot be read means nothing. -/
def changeAt? (disk : Disk) (project : Project) (path : Path) : Option FileChange :=
  if project.isVital path then some .reload
  else if project.isGoalFile path then do
    let name ← path.stem?
    if disk.isFile path then
      match disk.readText path with
      | .ok text => some (.updateGoal name path.text text)
      | .error _ => none
    else
      some (.removeGoal name)
  else
    none

/-- A project after a change, with the requests to be served, or why there are none. -/
structure ChangeResult where
  project : Project
  requests : Except Failure (List StoryRequest)

/-- Finds the project anew and loads its story. The project found replaces the old one even if its
story cannot be read. -/
def reload (disk : Disk) (project : Project) : ChangeResult :=
  match Project.load disk project.root with
  | .error failure => { project, requests := .error failure }
  | .ok found =>
    match found.inputs disk with
    | .ok inputs => { project := found, requests := .ok [.loadStory inputs] }
    | .error error =>
      { project := found
        requests := .error { context := s!"Failed to reload project {found.name}", error } }

/-- Carries out a change. -/
def apply (disk : Disk) (project : Project) : FileChange → ChangeResult
  | .updateGoal name uri text => { project, requests := .ok [.update name uri text] }
  | .removeGoal name => { project, requests := .ok [.remove name] }
  | .reload => project.reload disk

end Project

end StoryCheck
