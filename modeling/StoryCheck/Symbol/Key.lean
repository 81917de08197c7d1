/-!
# Names of symbols

A symbol is what a name with a number of parameters stands for: the same name with another number
of parameters is another symbol.
-/

namespace StoryCheck

/-- Identity of a symbol. -/
structure SymbolKey where
  name : String
  arity : Nat
deriving DecidableEq, Repr, Inhabited, Hashable

namespace SymbolKey

/-- A key as it is written in messages. -/
def display (key : SymbolKey) : String := s!"{key.name}/{key.arity}"

/-- By name, then by number of parameters. -/
def order (a b : SymbolKey) : Ordering := (compare a.name b.name).then (compare a.arity b.arity)

end SymbolKey

/-- One parameter of a symbol. -/
structure ParameterRef where
  symbol : SymbolKey
  index : Nat
deriving DecidableEq, Repr, Inhabited

end StoryCheck
