import StoryCheck.Environment
import StoryCheck.Json
import StoryCheck.Project.Path
import StoryCheck.Toml.Document
/-!
# Manifests

A project is described by a manifest, a TOML text. It names the header, the directory of the goals,
the directories that the project depends on and the list of the objects in its levels, and it
relaxes or tightens some checks. Keys that mean nothing are ignored.

The list of objects is a JSON text.
-/

namespace StoryCheck

/-- What a manifest says. Paths are meant from the directory of the manifest. -/
structure Manifest where
  name : String
  header : Path
  goals : Path
  dependencies : List Path
  instances : Option Path
  /-- Databases that nobody need read or write. -/
  orphans : List SymbolKey
  enumerations : List Enumeration
deriving DecidableEq, Repr, Inhabited

namespace Manifest

open Toml (Entries Value)

/-- The name of the file that holds a manifest. -/
def fileName : String := "osiris.toml"

/-- The directory of the goals if the manifest names none. -/
def defaultGoals : Path := ⟨"Goals"⟩

/-- A path from a string. -/
def path? (value : Value) : Option Path := value.string?.map (⟨·⟩)

/-- A database that nobody need read or write. -/
def orphan? (value : Value) : Option SymbolKey := do
  match ← value.fields? ["name", "arity"] with
  | [name, arity] => return { name := ← name.string?, arity := ← arity.size? }
  | _ => none

/-- The strings that a parameter admits. -/
def enumeration? (value : Value) : Option Enumeration := do
  match ← value.fields? ["symbol", "arity", "parameter", "members"] with
  | [symbol, arity, parameter, members] =>
    let key : SymbolKey := { name := ← symbol.string?, arity := ← arity.size? }
    return { parameter := ⟨key, ← parameter.size?⟩, members := ← members.strings? }
  | _ => none

/-- The items of an array, each as a value of its own. -/
def list? {α : Type} (item? : Value → Option α) (value : Value) : Option (List α) :=
  value.items?.bind fun items => items.mapM item?

/-- The value of a key that may be missing. -/
def optional {α : Type} (entries : Entries) (key : String) (default : α)
    (read? : Value → Option α) : Option α :=
  match entries.get? key with
  | some value => read? value
  | none => some default

/-- Takes a manifest from the entries of a text. -/
def ofEntries? (entries : Entries) : Option Manifest := do
  return {
    name := ← (← entries.get? "name").string?
    header := ← path? (← entries.get? "header")
    goals := ← optional entries "goals" defaultGoals path?
    dependencies := ← optional entries "dependencies" [] (list? path?)
    instances := ← optional entries "instances" none fun value => (path? value).map some
    orphans := ← optional entries "orphans" [] (list? orphan?)
    enumerations := ← optional entries "enumerations" [] (list? enumeration?) }

/-- Reads a manifest by the reader of TOML in this library. -/
def read? (text : String) : Option Manifest := (Toml.read? text).bind ofEntries?

end Manifest

/-! ## Objects in levels -/

namespace LevelObject

open Json (Value)

/-- The values of the members of a name. -/
def membersNamed (name : String) (members : List (Option String × Value)) : List Value :=
  (members.filter fun (n, _) => n == some name).map (·.2)

/-- The text of the only member of a name. -/
def field? (members : List (Option String × Value)) (name : String) : Option String :=
  match membersNamed name members with
  | [.string (some text)] => some text
  | _ => none

/-- An object, from its fields by name or in order. -/
def ofJson? : Value → Option LevelObject
  | .object members =>
    if members.all fun (name, _) => name.isSome then do
      return {
        guid := ← field? members "guid"
        name := ← field? members "name"
        kind := ← field? members "kind" }
    else
      none
  | .array [.string (some guid), .string (some name), .string (some kind)] =>
    some { guid, name, kind }
  | _ => none

/-- Reads a list of objects by the reader of JSON in this library. -/
def readList? (text : String) : Option (List LevelObject) :=
  match Json.read? text with
  | some (.array items) => items.mapM ofJson?
  | _ => none

end LevelObject

end StoryCheck
