import Mathlib.Logic.Relation
import StoryCheck.Proofs.Symbol.Lookup

/-!
# Settling

What a symbol comes to is decided by a search that starts anywhere, looks at symbols below a chain
of others and remembers some of what it found. This module says what a symbol ought to come to
without any of that: a *view* ascribes a judgement to every symbol, and a symbol is judged by its
candidates as the view has the symbols they refer to.

## The architecture

* **`View.judge`** — the judgement of a symbol: it adopts the first candidate whose types are all
  there, or else waits or is dead. A reference of a symbol to itself gives no type.
* **`Needs`** — a symbol needs another to be judged: some candidate up to the one that it adopts
  refers to it.
* **`Settling`** — a view that judges every symbol it covers by itself. It tolerates circles of
  symbols that need each other as long as none of them gets types, and what waits has a reason to
  wait that does not go in a circle.
* **`Settles`** — some settling covers the symbol.
-/

namespace StoryCheck

/-! ## Judgements

What a symbol may come to. A judgement names the definition that was adopted and not its place, as
the place depends on the order of goals. -/

/-- What a symbol comes to. -/
inductive Judgement where
  /-- It is declared with these types. -/
  | declared (types : List ValueType)
  /-- It adopts a definition with these types, each with the place that it is from. -/
  | adopts (d : SymbolDefinition) (types : List (ValueType × Option ParameterRef))
  | pending
  | dead
deriving DecidableEq, Repr

namespace Judgement

/-- Whether the symbol has types. -/
def isTyped : Judgement → Bool
  | declared _ | adopts _ _ => true
  | pending | dead => false

/-- The types of the parameters, none if the symbol has no types. -/
def types : Judgement → List ValueType
  | declared types => types
  | adopts _ types => types.map (·.1)
  | pending | dead => []

/-- The type of a parameter, or what stands in the way of it. -/
def typeAt (judgement : Judgement) (index : Nat) : Except Resolution ValueType :=
  match judgement with
  | dead => .error .dead
  | pending => .error .pending
  | declared _ | adopts _ _ =>
    let type := judgement.types[index]?.getD .unknown
    if type.isKnown then .ok type else .error .pending

end Judgement

/-! ## Views

A view says of each symbol what it comes to. Being resolved from a view is a search through
candidates, as in a walk, but one that changes nothing. -/

/-- The judgement of every symbol. -/
abbrev View := SymbolKey → Judgement

namespace View

/-- The types of parameters from left to right, up to the first that has none. -/
def complete (view : View) : List DefinitionParameter → Completion
  | [] => .ok []
  | p :: rest =>
    match p.source with
    | .explicit type => (view.complete rest).map ((type, none) :: ·)
    | .unknown => .error .pending
    | .reference ref =>
      match (view ref.symbol).typeAt ref.index with
      | .ok type => (view.complete rest).map ((type, some ref) :: ·)
      | .error why => .error why

/-- The first definition that is complete, with its types. -/
def firstComplete (view : View) : List SymbolDefinition →
    Option (SymbolDefinition × List (ValueType × Option ParameterRef))
  | [] => none
  | d :: rest =>
    if d.isPartial then view.firstComplete rest
    else
      match view.complete d.parameters with
      | .ok types => some (d, types)
      | .error _ => view.firstComplete rest

/-- The definitions at which a search for the first complete one looks. -/
def examined (view : View) : List SymbolDefinition → List SymbolDefinition
  | [] => []
  | d :: rest =>
    if d.isPartial then view.examined rest
    else
      match view.complete d.parameters with
      | .ok _ => [d]
      | .error _ => d :: view.examined rest

/-- Whether a definition is one to wait for. -/
def awaits (view : View) (d : SymbolDefinition) : Bool :=
  d.isPartial || view.complete d.parameters == .error .pending

/-- The judgement of a symbol with these candidates. -/
def judge (view : View) (isDatabase : Bool) (candidates : List SymbolDefinition) : Judgement :=
  match view.firstComplete candidates with
  | some (d, types) => .adopts d types
  | none =>
    if candidates.any view.awaits || (candidates.isEmpty && !isDatabase) then .pending else .dead

/-- The view that a symbol has, which gets no type from itself. -/
def seenBy (view : View) (key : SymbolKey) : View :=
  fun other => if other = key then .dead else view other

/-- The view that a symbol has when only symbols of less rank are known to wait. -/
def seenBelow (view : View) (rank : SymbolKey → Nat) (key : SymbolKey) : View :=
  fun other =>
    if view other = .pending ∧ rank key ≤ rank other then .dead else view.seenBy key other

end View

/-- The candidates of a symbol, the first choice first. -/
def StorySymbol.ranked (s : StorySymbol) (weights : Weights) : List SymbolDefinition :=
  (s.candidates weights).map (·.2)

namespace SymbolTable

/-- A symbol needs another one: a candidate up to the one that it adopts refers to it. -/
def Needs (table : SymbolTable) (weights : Weights) (view : View) (key other : SymbolKey) : Prop :=
  ∃ s, table.get? key = some s ∧ s.isSystem = false
    ∧ ∃ d ∈ (view.seenBy key).examined (s.ranked weights), other ∈ d.references

/-- A view that judges by itself. -/
structure Settling (table : SymbolTable) (weights : Weights) where
  /-- The symbols about which the view has a say. -/
  covers : SymbolKey → Prop
  view : View
  /-- Among symbols that wait for each other, which one has the better reason. -/
  rank : SymbolKey → Nat
  absent : ∀ {key}, covers key → table.get? key = none → view key = .dead
  declared : ∀ {key s}, covers key → table.get? key = some s → s.isSystem = true →
    view key = .declared (s.parameters.map (·.type))
  judged : ∀ {key s}, covers key → table.get? key = some s → s.isSystem = false →
    view key = (view.seenBy key).judge s.isDatabase (s.ranked weights)
  /-- What waits still does if only symbols of less rank are known to wait. -/
  grounded : ∀ {key s}, covers key → table.get? key = some s → s.isSystem = false →
    view key = .pending →
    (view.seenBelow rank key).judge s.isDatabase (s.ranked weights) = .pending
  closed : ∀ {key other}, covers key → table.Needs weights view key other → covers other
  /-- What gets types is on no circle with another symbol. -/
  acyclic : ∀ {key other}, covers key → (view key).isTyped = true → key ≠ other →
    Relation.TransGen (table.Needs weights view) key other →
    ¬ Relation.TransGen (table.Needs weights view) other key

/-- Some view that judges by itself has a say about the symbol. -/
def Settles (table : SymbolTable) (weights : Weights) (key : SymbolKey) : Prop :=
  ∃ S : table.Settling weights, S.covers key

end SymbolTable

end StoryCheck
