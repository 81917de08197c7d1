import StoryCheck.Syntax.Tree
/-!
# Syntax trees of headers

The header of a story declares the symbols that the game itself defines, gives names to types,
and holds goals whose sections are kept as text.
-/

namespace StoryCheck.Syntax

/-- The keywords of declarations. -/
inductive DeclarationKind where
  | call | event | query | sysCall | sysQuery
deriving DecidableEq, Repr, Inhabited

/-- The kind of declaration that a word opens. -/
def DeclarationKind.ofWord? : String → Option DeclarationKind
  | "call" => some .call
  | "event" => some .event
  | "query" => some .query
  | "syscall" => some .sysCall
  | "sysquery" => some .sysQuery
  | _ => none

/-- The type that an alias stands for: by name, or by the number of a built-in type. -/
inductive AliasBase where
  | named (name : String)
  | id (id : Int)
deriving DecidableEq, Repr, Inhabited

/-- A further name for a type. -/
structure TypeAlias where
  name : String
  base : AliasBase
  range : Range
deriving DecidableEq, Repr, Inhabited

/-- The text of a section of a header goal without the indentation its lines share. -/
structure Section where
  text : List Char := []
  /-- For each line of the text, the offset in the header of its first byte. -/
  origins : List Nat := []
deriving DecidableEq, Repr, Inhabited

/-- A goal in the header. -/
structure HeaderGoal where
  id : Int
  title : String
  subGoals : List Int
  init : Section
  kb : Section
  exit : Section
  range : Range
deriving DecidableEq, Repr, Inhabited

/-- A declaration as it is written. -/
structure Definition where
  kind : DeclarationKind
  signature : Signature
  range : Range
deriving DecidableEq, Repr, Inhabited

/-- A whole header. -/
structure Header where
  definitions : List Definition
  goals : List HeaderGoal
  aliases : List TypeAlias
  range : Range
deriving DecidableEq, Repr, Inhabited

/-! ## Declarations -/

/-- A parameter of a declared symbol. -/
structure DeclaredParameter where
  /-- Empty if the parameter is not a name. -/
  name : String
  type : Option String
  flow : Option Flow
deriving DecidableEq, Repr, Inhabited

/-- A symbol that the game itself defines. -/
structure Declaration where
  name : String
  kind : DeclarationKind
  parameters : List DeclaredParameter
  span : Span
deriving DecidableEq, Repr, Inhabited

/-- Number of parameters. -/
def Declaration.arity (declaration : Declaration) : Nat := declaration.parameters.length

/-- The symbol that a definition declares, unless its name is missing. -/
def Definition.declaration? (definition : Definition) : Option Declaration :=
  let signature := definition.signature
  if signature.identifier.name = "" then none
  else
    some
      { name := signature.identifier.name
        kind := definition.kind
        parameters := signature.parameters.map fun parameter =>
          { name := parameter.argument.name?.getD ""
            type := parameter.type.map (·.name)
            flow := parameter.flow }
        span := definition.range.span }

/-- The symbols that a header declares, in order. -/
def Header.declarations (header : Header) : List Declaration :=
  header.definitions.filterMap Definition.declaration?

end StoryCheck.Syntax
