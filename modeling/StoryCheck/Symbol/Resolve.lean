import StoryCheck.Symbol.Table
import StoryCheck.Weights
/-!
# Resolution

A symbol adopts its first *complete* definition, in the order of goal weight and place. A
definition is complete when no parameter is without type and every type that is taken from another
symbol can itself be resolved. A database looks only at the places that write to it.

To take a type from a symbol, that symbol is resolved first. The symbols that are being resolved
form a chain. Meeting one of them again means that a definition waits for itself: the symbol in
between is *blocked*, and the symbol at the root of the attempt is dead if nothing else helps.

A symbol that was found pending, and not because of the chain, stays so for the rest of the sweep.
There are two sweeps over the flagged symbols, the second over those still pending. After that no
symbol is flagged; a change to a symbol that a pending one takes types from flags it again.
-/

namespace StoryCheck

open Syntax

/-! ## Candidates -/

namespace StorySymbol

/-- The definitions that a symbol may adopt, the first choice first, each with its place. -/
def candidates (s : StorySymbol) (weights : Weights) : List (Nat × SymbolDefinition) :=
  let indexed := s.definitions.zipIdx.map fun (d, index) => (index, d)
  let eligible := indexed.filter fun (_, d) => !s.isDatabase || d.access == .write
  eligible.mergeSort fun (_, a) (_, b) =>
    ((compare (weights.of a.goal) (weights.of b.goal)).then
      (compare a.span.start b.span.start)).isLE

/-! ## Verdicts -/

/-- The direction that a definition states for a parameter. -/
def flowAt (index : Nat) (d : SymbolDefinition) : Option Flow :=
  d.parameters[index]?.bind (·.flow)

/-- The direction of a parameter: that of the given definition, or the first that any states. -/
def statedFlow (s : StorySymbol) (index : Nat) (preferred : Option SymbolDefinition) :
    Option Flow :=
  (preferred.bind (flowAt index)).or (s.definitions.findSome? (flowAt index))

/-- Adopts a definition with the types that its parameters turned out to have. -/
def adopt (s : StorySymbol) (index : Nat) (d : SymbolDefinition)
    (types : List (ValueType × Option ParameterRef)) : StorySymbol :=
  let typed := types.zip (d.parameters.map (·.name))
  { s with
    parameters := typed.zipIdx.map fun (((type, origin), name), position) =>
      { name, type, origin, flow := s.statedFlow position (some d) }
    canonical := some index
    isDead := false
    needsUpdate := false }

/-- The types that definitions state for a parameter and that say something. -/
def explicitTypes (s : StorySymbol) (index : Nat) : List ValueType :=
  s.definitions.filterMap fun d =>
    match (d.parameters[index]?).map DefinitionParameter.source with
    | some (ParameterSource.explicit type) => if type.isKnown then some type else none
    | _ => none

/-- The type on which all that state one agree: unknown if there is none, contradictory if two
differ. -/
def agreedType : List ValueType → ValueType
  | [] => .unknown
  | first :: rest => if rest.all (· == first) then first else .invalid

/-- Gives up on adopting a definition and takes, for each parameter, what the definitions agree
on. -/
def fallBack (s : StorySymbol) : StorySymbol :=
  { s with
    parameters := s.parameters.zipIdx.map fun (p, index) =>
      { p with
        type := agreedType (s.explicitTypes index)
        flow := s.statedFlow index none
        origin := none }
    canonical := none }

/-- Gives up for good. -/
def markDead (s : StorySymbol) : StorySymbol :=
  { s.fallBack with isDead := true, needsUpdate := false }

/-- Waits for a first definition. -/
def waitForDefinition (s : StorySymbol) : StorySymbol := { s.fallBack with needsUpdate := false }

end StorySymbol

/-! ## Sweeps -/

/-- A sweep over a table. -/
structure Sweep where
  table : SymbolTable
  /-- Symbols found pending for good in this sweep. -/
  pending : List SymbolKey := []
  /-- Number of symbols that were walked. -/
  visits : Nat := 0
  /-- Length of the longest chain. -/
  maxDepth : Nat := 0
deriving DecidableEq, Repr, Inhabited

/-- A step of a sweep. -/
abbrev Resolving (α : Type) := StateM Sweep α

/-- What kept definitions from being complete. -/
structure Failures where
  pending : Bool := false
  blocked : Bool := false
deriving DecidableEq, Repr, Inhabited

/-- Adds what kept one more definition. -/
def Failures.add (failures : Failures) : Resolution → Failures
  | .pending => { failures with pending := true }
  | .blocked => { failures with blocked := true }
  | _ => failures

/-- The types of a definition's parameters, where each comes from, or what stands in the way. -/
abbrev Completion := Except Resolution (List (ValueType × Option ParameterRef))

namespace Resolving

/-- Finds the types of parameters from left to right, up to the first that has none. -/
def complete (resolve : SymbolKey → Resolving Resolution) :
    List DefinitionParameter → Resolving Completion
  | [] => return .ok []
  | p :: rest => do
    match p.source with
    | .explicit type =>
      return (← complete resolve rest).map ((type, none) :: ·)
    | .unknown => return .error .pending
    | .reference ref =>
      match ← resolve ref.symbol with
      | .resolved =>
        let symbol? := (← get).table.get? ref.symbol
        let type := ((symbol?.bind fun s => s.parameters[ref.index]?).map (·.type)).getD .unknown
        if type.isKnown then
          return (← complete resolve rest).map ((type, some ref) :: ·)
        else
          return .error .pending
      | other => return .error other

/-- A definition that was found complete, with its place and types. -/
abbrev Adoption := Nat × SymbolDefinition × List (ValueType × Option ParameterRef)

/-- Looks for the first complete definition. -/
def firstComplete (resolve : SymbolKey → Resolving Resolution) :
    (candidates : List (Nat × SymbolDefinition)) → Failures → Resolving (Option Adoption × Failures)
  | [], failures => return (none, failures)
  | (index, d) :: rest, failures => do
    if d.isPartial then
      firstComplete resolve rest { failures with pending := true }
    else
      match ← complete resolve d.parameters with
      | .ok types => return (some (index, d, types), failures)
      | .error why => firstComplete resolve rest (failures.add why)

/-- Changes the symbol of a key. -/
def modifySymbol (key : SymbolKey) (f : StorySymbol → StorySymbol) : Resolving Unit :=
  modify fun s => { s with table := s.table.modify key f }

/-- Settles a symbol for which no definition is complete. -/
def settle (key : SymbolKey) (isRoot hasCandidates isDatabase : Bool) (failures : Failures) :
    Resolving Resolution := do
  if failures.pending then
    modifySymbol key StorySymbol.fallBack
    if !failures.blocked then
      modify fun s => { s with pending := key :: s.pending }
    return .pending
  else if failures.blocked && !isRoot then
    return .blocked
  else if !hasCandidates && !isDatabase then
    modifySymbol key StorySymbol.waitForDefinition
    return .pending
  else
    modifySymbol key StorySymbol.markDead
    return .dead

/-- A symbol that has to be walked below a chain of symbols that are being resolved, or else what is
known about it. -/
def toWalk (sweep : Sweep) (chain : List SymbolKey) (key : SymbolKey) :
    Except Resolution StorySymbol :=
  match sweep.table.get? key with
  | none => .error .dead
  | some symbol =>
    if !symbol.needsUpdate then .error symbol.resolution
    else if sweep.pending.contains key then .error .pending
    else if chain.contains key then .error .blocked
    else .ok symbol

/-- Walks a symbol below a chain: its candidates are tried in order, with `resolve` for the symbols
from which they take types. -/
def walk (weights : Weights) (resolve : SymbolKey → Resolving Resolution)
    (chain : List SymbolKey) (key : SymbolKey) (symbol : StorySymbol) : Resolving Resolution := do
  modify fun s =>
    { s with visits := s.visits + 1, maxDepth := max s.maxDepth (chain.length + 1) }
  let candidates := symbol.candidates weights
  let (adopted, failures) ← firstComplete resolve candidates {}
  match adopted with
  | some (index, d, types) =>
    modifySymbol key fun s => s.adopt index d types
    return .resolved
  | none => settle key chain.isEmpty (!candidates.isEmpty) symbol.isDatabase failures

/-- Resolves a symbol below a chain of symbols that are being resolved. The chain holds no symbol
twice, so `room`, which starts as the number of symbols, is not used up before every symbol is on
it. -/
def resolve (weights : Weights) : (room : Nat) → (chain : List SymbolKey) → SymbolKey →
    Resolving Resolution
  | 0, chain, key => do
    match toWalk (← get) chain key with
    | .error verdict => return verdict
    | .ok _ => return .blocked
  | room + 1, chain, key => do
    match toWalk (← get) chain key with
    | .error verdict => return verdict
    | .ok symbol => walk weights (resolve weights room (key :: chain)) chain key symbol

end Resolving

namespace SymbolTable

/-- The keys of the symbols that are flagged. -/
def flagged (table : SymbolTable) : List SymbolKey :=
  (table.symbols.filter fun s => s.needsUpdate).map (·.key)

/-- Resolves the flagged symbols one after the other. -/
def sweep (table : SymbolTable) (weights : Weights) : Sweep :=
  let step (s : Sweep) (key : SymbolKey) : Sweep :=
    ((Resolving.resolve weights table.size [] key).run s).2
  table.flagged.foldl step { table }

/-- Numbers of one resolution. -/
structure UpdateStats where
  resolved : Nat := 0
  dead : Nat := 0
  pending : Nat := 0
  maxDepth : Nat := 0
  visits : Nat := 0
deriving DecidableEq, Repr, Inhabited

/-- Takes off every flag. -/
def clearFlags (table : SymbolTable) : SymbolTable :=
  table.map fun s => { s with needsUpdate := false }

/-- Number of symbols without declaration that came to a verdict. -/
def count (table : SymbolTable) (verdict : Resolution) : Nat :=
  table.symbols.countP fun s => !s.isSystem && s.resolution == verdict

/-- Resolves every flagged symbol in two sweeps, so that the verdicts do not hang on the order of
the table. -/
def update (table : SymbolTable) (weights : Weights) : SymbolTable × UpdateStats :=
  let first := table.sweep weights
  let second := first.table.sweep weights
  let table := second.table.clearFlags
  (table,
    { resolved := table.count .resolved
      dead := table.count .dead
      pending := table.count .pending
      maxDepth := max first.maxDepth second.maxDepth
      visits := first.visits + second.visits })

end SymbolTable

end StoryCheck
