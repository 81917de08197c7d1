import StoryCheck.Syntax.Header
/-!
# Value types

There are five built-in types, and the header of a story gives further names to them. A name that
the header introduces stands for a kind of game object and so for a GUID, unless it is based on
another built-in type.

Values may be handed over where the types are equal, where an integer goes into a wide integer,
and between the untyped GUID and its further names. Where a type is not known or contradictory,
everything may be handed over: that problem is reported elsewhere.
-/

namespace StoryCheck

open Syntax

/-- The type of a value. -/
inductive ValueType where
  /-- Not determined. -/
  | unknown
  /-- Contradictory, or named by a word that names no type. -/
  | invalid
  | integer
  | integer64
  | real
  | string
  | guidString
  /-- A name that the header introduces. -/
  | named (name : String)
deriving DecidableEq, Repr, Inhabited

namespace ValueType

/-- The built-in type of a name. -/
def builtin? : String → Option ValueType
  | "INTEGER" => some integer
  | "INTEGER64" => some integer64
  | "REAL" => some real
  | "STRING" => some string
  | "GUIDSTRING" => some guidString
  | _ => none

/-- The built-in type of a number. -/
def ofId? (id : Int) : Option ValueType :=
  if id = 1 then some integer
  else if id = 2 then some integer64
  else if id = 3 then some real
  else if id = 4 then some string
  else if id = 5 then some guidString
  else none

/-- Whether a type says something about its values. -/
def isKnown : ValueType → Bool
  | unknown | invalid => false
  | _ => true

/-- How a message speaks of a type. -/
def display : ValueType → String
  | unknown => "?"
  | invalid => "<invalid>"
  | integer => "INTEGER"
  | integer64 => "INTEGER64"
  | real => "REAL"
  | string => "STRING"
  | guidString => "GUIDSTRING"
  | named name => name

/-- The type of a constant; a name is no constant. -/
def ofTerm? : Term → Option ValueType
  | .name _ => none
  | .integer _ => some integer
  | .real _ => some real
  | .string _ => some string
  | .guid _ => some guidString

end ValueType

/-- The built-in type that each introduced name stands for. A name stands in it once. -/
structure TypeRegistry where
  names : List (String × ValueType) := []
deriving DecidableEq, Repr, Inhabited

namespace TypeRegistry

/-- The built-in type that a base refers to. -/
def base? : AliasBase → Option ValueType
  | .named name => ValueType.builtin? name
  | .id id => ValueType.ofId? id

/-- Introduces a name, in place of an earlier use of it. A base that refers to no built-in type
counts as the GUID; the second component tells whether it did refer to one. -/
def register (types : TypeRegistry) (entry : TypeAlias) : TypeRegistry × Bool :=
  let base := base? entry.base
  let others := types.names.filter fun (name, _) => name != entry.name
  (⟨others ++ [(entry.name, base.getD .guidString)]⟩, base.isSome)

/-- Introduces names one after the other. -/
def registerAll (types : TypeRegistry) (entries : List TypeAlias) : TypeRegistry :=
  entries.foldl (fun types entry => (types.register entry).1) types

/-- The built-in type that an introduced name stands for. -/
def lookup? (types : TypeRegistry) (name : String) : Option ValueType :=
  (types.names.find? fun (n, _) => n == name).map (·.2)

/-- The type that a name refers to; built-in names come first. -/
def resolve? (types : TypeRegistry) (name : String) : Option ValueType :=
  match ValueType.builtin? name with
  | some type => some type
  | none => (types.lookup? name).map fun _ => .named name

/-- The type that a written type refers to, which is contradictory if its name refers to none. -/
def resolve (types : TypeRegistry) (name : String) : ValueType :=
  (types.resolve? name).getD .invalid

/-- The built-in type that a type stands for. -/
def baseOf (types : TypeRegistry) : ValueType → ValueType
  | .named name => (types.lookup? name).getD .guidString
  | type => type

/-- Whether the values of a type are GUIDs. -/
def isGuid (types : TypeRegistry) (type : ValueType) : Bool := types.baseOf type == .guidString

/-- Whether a value of one built-in type fits another. -/
def fitsBuiltin (expected found : ValueType) : Bool :=
  !expected.isKnown || !found.isKnown || expected == found
    || (expected == .integer64 && found == .integer)

/-- Whether a value of type `found` may be handed over where `expected` is wanted. A name for a
type other than the GUID counts as that type, except towards another name. -/
def isAssignable (types : TypeRegistry) (expected found : ValueType) : Bool :=
  if !expected.isKnown || !found.isKnown || expected == found then true
  else
    match expected, found with
    | .integer64, .integer => true
    | .named _, .guidString | .guidString, .named _ =>
      types.isGuid expected && types.isGuid found
    | .named _, .named _ => false
    | .named _, _ | _, .named _ =>
      !types.isGuid expected && !types.isGuid found
        && fitsBuiltin (types.baseOf expected) (types.baseOf found)
    | _, _ => false

end TypeRegistry

end StoryCheck
