import StoryCheck.Symbol.Key
/-!
# Facts about the project

What the checks know besides the symbols: the objects that stand in the levels of the game, the
databases that are meant to be left alone, and the strings that some parameters admit.
-/

namespace StoryCheck

/-- An object in a level. -/
structure LevelObject where
  guid : String
  name : String
  /-- The name of its type. -/
  kind : String
deriving DecidableEq, Repr, Inhabited

/-- The strings that a parameter admits. -/
structure Enumeration where
  parameter : ParameterRef
  members : List String
deriving DecidableEq, Repr, Inhabited

/-- Facts about the project. Where two entries speak of the same thing the later one counts. -/
structure Environment where
  objects : List LevelObject := []
  /-- Databases that nobody need read or write. -/
  orphans : List SymbolKey := []
  enumerations : List Enumeration := []
deriving DecidableEq, Repr, Inhabited

namespace Environment

/-- The object of a GUID, in either case of letters. -/
def object? (environment : Environment) (guid : String) : Option LevelObject :=
  environment.objects.reverse.find? fun object => object.guid.toLower == guid.toLower

/-- The strings that a parameter admits, if it is restricted to some. -/
def members? (environment : Environment) (parameter : ParameterRef) : Option (List String) :=
  (environment.enumerations.reverse.find? fun e => e.parameter == parameter).map (·.members)

end Environment

end StoryCheck
