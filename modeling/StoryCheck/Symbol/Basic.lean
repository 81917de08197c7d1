import StoryCheck.Scope
/-!
# Symbols

Goals never declare the types of parameters. What a symbol is, is put together from its
*definitions*: the call sites and rule heads that say something about it. Symbols that the header
declares are fixed.

A parameter of a definition has a type of its own (from a constant or a written type), takes that
of the symbol parameter which gave the variable its value earlier in the rule, or has none. A
definition with a parameter that has none is *partial*.
-/

namespace StoryCheck

open Syntax

/-- What a symbol is. -/
inductive SymbolKind where
  | unknown | call | database | event | query
deriving DecidableEq, Repr, Inhabited

namespace SymbolKind

/-- How a message speaks of a kind. -/
def display : SymbolKind → String
  | unknown => "unknown symbol"
  | call => "call"
  | database => "database"
  | event => "event"
  | query => "query"

/-- The kind that a declaration declares. -/
def ofDeclaration : DeclarationKind → SymbolKind
  | .call | .sysCall => .call
  | .query | .sysQuery => .query
  | .event => .event

end SymbolKind

/-- A parameter of a symbol as it was resolved. -/
structure SymbolParameter where
  name : String
  type : ValueType := .unknown
  flow : Option Flow := none
  /-- Where the type was taken from, if it was inferred. -/
  origin : Option ParameterRef := none
deriving DecidableEq, Repr, Inhabited

/-- What a definition says about the type of a parameter. -/
inductive ParameterSource where
  | explicit (type : ValueType)
  | reference (ref : ParameterRef)
  | unknown
deriving DecidableEq, Repr, Inhabited

/-- A parameter of a definition. -/
structure DefinitionParameter where
  name : String
  source : ParameterSource
  /-- The direction that is written at this place. -/
  flow : Option Flow
deriving DecidableEq, Repr, Inhabited

/-- How a definition touches its symbol. -/
inductive Access where
  | declaration
  | head (kind : RuleKind)
  /-- An action that inserts into a database. -/
  | write
  /-- An action with NOT that removes from a database. -/
  | delete
  /-- A condition on a database. -/
  | read
deriving DecidableEq, Repr, Inhabited

/-- A place that says something about a symbol. -/
structure SymbolDefinition where
  goal : String
  span : Span
  start : PackedPosition
  kind : SymbolKind
  access : Access
  parameters : List DefinitionParameter
  comment : Option String := none
deriving DecidableEq, Repr, Inhabited

namespace SymbolDefinition

/-- Whether some parameter takes its type from another symbol. -/
def isInferred (d : SymbolDefinition) : Bool :=
  d.parameters.any fun p => match p.source with
    | .reference _ => true
    | _ => false

/-- Whether some parameter has no type. -/
def isPartial (d : SymbolDefinition) : Bool :=
  d.parameters.any fun p => p.source == .unknown

/-- The symbols from which a definition takes types. -/
def references (d : SymbolDefinition) : List SymbolKey :=
  d.parameters.filterMap fun p => match p.source with
    | .reference ref => some ref.symbol
    | _ => none

end SymbolDefinition

/-- What became of a symbol in the last resolution. -/
inductive Resolution where
  | resolved
  /-- It waits for something that may still arrive. -/
  | pending
  | dead
  /-- It waits for a symbol that is being resolved right now. -/
  | blocked
deriving DecidableEq, Repr, Inhabited

/-- A symbol with all that goals say about it. -/
structure StorySymbol where
  key : SymbolKey
  kind : SymbolKind := .unknown
  /-- Declared in the header and never inferred. -/
  isSystem : Bool := false
  /-- Can never be resolved. -/
  isDead : Bool := false
  /-- Definitions have changed since the last resolution. -/
  needsUpdate : Bool := true
  parameters : List SymbolParameter
  definitions : List SymbolDefinition := []
  /-- The goal of each call site. -/
  usages : List String := []
  /-- The goal of each condition on the database. -/
  reads : List String := []
  /-- The goal of each insertion into the database. -/
  writes : List String := []
  /-- Place among the definitions of the one that the symbol adopted. -/
  canonical : Option Nat := none
deriving DecidableEq, Repr, Inhabited

/-- The name of a parameter that nothing names. -/
def placeholderName (index : Nat) : String := s!"_Param{index + 1}"

namespace StorySymbol

/-- A symbol about which nothing is known. -/
def ofKey (key : SymbolKey) : StorySymbol :=
  { key, parameters := (List.range key.arity).map fun index => { name := placeholderName index } }

/-- Name of a symbol. -/
abbrev name (s : StorySymbol) : String := s.key.name

/-- Number of parameters. -/
abbrev arity (s : StorySymbol) : Nat := s.key.arity

/-- Whether the name is that of a database. -/
def isDatabase (s : StorySymbol) : Bool := NameClass.of s.name == .database

/-- The definition that the symbol adopted. -/
def canonicalDefinition? (s : StorySymbol) : Option SymbolDefinition :=
  s.canonical.bind fun index => s.definitions[index]?

/-- The comment of the adopted definition, or the first that a definition has. -/
def comment (s : StorySymbol) : Option String :=
  (s.canonicalDefinition?.bind (·.comment)).or (s.definitions.findSome? (·.comment))

/-- Whether definitions disagree on the kind. -/
def hasKindConflict (s : StorySymbol) : Bool :=
  match s.definitions with
  | [] => false
  | first :: rest => rest.any fun d => d.kind != first.kind

/-- What became of the symbol in the last resolution. -/
def resolution (s : StorySymbol) : Resolution :=
  if s.isDead then .dead
  else if s.isSystem || s.canonical.isSome then .resolved
  else .pending

/-- Takes the kind on which all definitions agree. -/
def refreshKind (s : StorySymbol) : StorySymbol :=
  if s.isSystem then s
  else
    { s with
      kind := if s.hasKindConflict then .unknown else (s.definitions.head?.map (·.kind)).getD .unknown }

/-- Takes back the last resolution. -/
def invalidate (s : StorySymbol) : StorySymbol :=
  if s.isSystem then s else { s with isDead := false, needsUpdate := true, canonical := none }

/-- Whether some definition takes a type from one of the symbols. -/
def dependsOn (s : StorySymbol) (keys : List SymbolKey) : Bool :=
  s.definitions.any fun d => d.references.any keys.contains

end StorySymbol

end StoryCheck
