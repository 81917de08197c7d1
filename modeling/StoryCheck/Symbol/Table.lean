import StoryCheck.Symbol.Basic
/-!
# The symbol table

The symbols of a story in the order in which they came up. Goals are put in and taken out again;
each change flags the symbols it touches, and all that take types from those, for the next
resolution.
-/

namespace StoryCheck

open Syntax

/-! ## What a call site says -/

/-- The symbol that is called. -/
def Syntax.Call.key (call : Syntax.Call) : SymbolKey := ⟨call.name, call.arity⟩

/-- What a call site means for its symbol, nothing if it only uses it. -/
def definitionShape? (call : Call) : Option (SymbolKind × Access) :=
  let isDatabase := NameClass.of call.name == .database
  match call.role with
  | .head kind =>
    if isDatabase then some (.database, .head kind)
    else
      match kind with
      | .ifRule => some (.event, .head kind)
      | .proc => some (.call, .head kind)
      | .query => some (.query, .head kind)
  | .condition => if isDatabase then some (.database, .read) else none
  | .action | .initAction | .exitAction =>
    if isDatabase then some (.database, if call.negated then .delete else .write) else none

/-- What a parameter in a rule says: a written type or constant counts as it stands, and a variable
counts as its first mention. -/
def scopedSource (scope : RuleScope) (parameter : ScopedParameter) : DefinitionParameter :=
  let fallback := placeholderName parameter.mention.index
  let (name, source) : String × ParameterSource :=
    match parameter.use with
    | .constant type => (fallback, .explicit type)
    | .reference name =>
      let source : ParameterSource :=
        match scope.lookup? name with
        | none => .unknown
        | some v =>
          match v.written, v.source? with
          | some type, _ => .explicit type
          | none, some ref => .reference ref
          | none, none => .unknown
      (name, source)
    | .binding name => (name, .unknown)
    | .placeholder | .other => (fallback, .unknown)
  { name
    source := match parameter.written with
      | some type => .explicit type
      | none => source
    flow := parameter.mention.parameter.flow }

/-- What a parameter of a section's action says, where there are no variables. -/
def constantSource (types : TypeRegistry) (index : Nat) (parameter : Parameter) :
    DefinitionParameter :=
  { name := placeholderName index
    source := match writtenType? types parameter with
      | some type => .explicit type
      | none =>
        match ValueType.ofTerm? parameter.argument.term with
        | some type => .explicit type
        | none => .unknown
    flow := parameter.flow }

/-- A call site with what it says about its symbol and the comment it brings. -/
structure CallSite where
  call : Call
  parameters : List DefinitionParameter
  comment : Option String
deriving DecidableEq, Repr, Inhabited

namespace CallSite

/-- The symbol that is called. -/
def key (site : CallSite) : SymbolKey := site.call.key

/-- The call sites of a section. -/
def ofSection (types : TypeRegistry) (calls : List Call) : List CallSite :=
  calls.map fun call =>
    { call
      parameters := call.signature.parameters.zipIdx.map fun (p, index) =>
        constantSource types index p
      comment := none }

/-- Hands each call its own of the parameters of all calls, which stand in the same order. -/
def shareOut : List Call → List ScopedParameter → List (Call × List ScopedParameter)
  | [], _ => []
  | call :: rest, parameters =>
    (call, parameters.take call.arity) :: shareOut rest (parameters.drop call.arity)

/-- The call sites of a rule. The comment of the rule belongs to its head. -/
def ofRule (types : TypeRegistry) (rule : Rule) : List CallSite :=
  let scope := RuleScope.ofRule types rule
  let parameters := scope.parameters.filter fun p => p.mention.call.isSome
  (shareOut rule.calls parameters).map fun (call, own) =>
    { call
      parameters := own.map (scopedSource scope)
      comment := match call.role with
        | .head _ => rule.comment
        | _ => none }

/-- The call sites of a goal in the order of the source. -/
def ofGoal (types : TypeRegistry) (goal : Goal) : List CallSite :=
  ofSection types (goal.init.calls .initAction none)
    ++ goal.rules.flatMap (ofRule types)
    ++ ofSection types (goal.exit.calls .exitAction none)

end CallSite

/-- For every call site of a goal, in order, where its signature stands and the symbol it calls. -/
abbrev CallTable := List (Span × SymbolKey)

/-! ## The table -/

/-- The symbols of a story. A key stands in it once. -/
structure SymbolTable where
  symbols : List StorySymbol := []
deriving DecidableEq, Repr, Inhabited

namespace SymbolTable

/-- The symbol of a key. -/
def get? (table : SymbolTable) (key : SymbolKey) : Option StorySymbol :=
  table.symbols.find? fun s => s.key == key

/-- The symbols of a name, whatever their number of parameters. -/
def byName (table : SymbolTable) (name : String) : List StorySymbol :=
  table.symbols.filter fun s => s.name == name

/-- Number of symbols. -/
def size (table : SymbolTable) : Nat := table.symbols.length

/-- All keys in order. -/
def keys (table : SymbolTable) : List SymbolKey := table.symbols.map (·.key)

/-- Changes every symbol. -/
def map (table : SymbolTable) (f : StorySymbol → StorySymbol) : SymbolTable :=
  ⟨table.symbols.map f⟩

/-- Changes the symbol of a key. -/
def modify (table : SymbolTable) (key : SymbolKey) (f : StorySymbol → StorySymbol) : SymbolTable :=
  table.map fun s => if s.key = key then f s else s

/-- Makes sure that there is a symbol of a key; a new one comes last. -/
def ensure (table : SymbolTable) (key : SymbolKey) : SymbolTable :=
  if (table.get? key).isSome then table else ⟨table.symbols ++ [.ofKey key]⟩

/-! ### Dependents -/

/-- The symbols outside `seen` that take types from a symbol of `frontier`. -/
def nextDependents (table : SymbolTable) (seen frontier : List SymbolKey) : List SymbolKey :=
  (table.symbols.filter fun s => !seen.contains s.key && s.dependsOn frontier).map (·.key)

/-- Adds the symbols that take types from those of `frontier`, round by round. -/
def spread (table : SymbolTable) : (rounds : Nat) → (seen frontier : List SymbolKey) →
    List SymbolKey
  | 0, seen, _ => seen
  | rounds + 1, seen, frontier =>
    match table.nextDependents seen frontier with
    | [] => seen
    | next => spread table rounds (seen ++ next) next

/-- The symbols of `changed` and all that take types from them, directly or not. Every round but
the last adds a symbol, so there are no more rounds than symbols. -/
def dependentsOf (table : SymbolTable) (changed : List SymbolKey) : List SymbolKey :=
  table.spread (table.size + 1) changed changed

/-- Takes back the resolution of some symbols and of all that take types from them. -/
def invalidateFrom (table : SymbolTable) (changed : List SymbolKey) : SymbolTable :=
  let reached := table.dependentsOf changed
  table.map fun s => if reached.contains s.key then s.invalidate else s

/-- Takes back every resolution. -/
def invalidateAll (table : SymbolTable) : SymbolTable := table.map StorySymbol.invalidate

/-! ### Declarations -/

/-- The parameters of a declared symbol. -/
def declaredParameters (types : TypeRegistry) (declaration : Declaration) :
    List SymbolParameter :=
  declaration.parameters.map fun p =>
    { name := p.name
      type := (p.type.map types.resolve).getD .unknown
      flow := p.flow }

/-- Puts in a declaration of the header `goal`. Its symbol is fixed from then on; what goals said
about it before is kept behind the declaration. -/
def declare (table : SymbolTable) (goal : String) (types : TypeRegistry)
    (declaration : Declaration) : SymbolTable × SymbolKey :=
  let key : SymbolKey := ⟨declaration.name, declaration.arity⟩
  let kind := SymbolKind.ofDeclaration declaration.kind
  let parameters := declaredParameters types declaration
  let definition : SymbolDefinition :=
    { goal, span := declaration.span, start := 0, kind, access := .declaration
      parameters := parameters.map fun p =>
        { name := p.name, source := .explicit p.type, flow := p.flow } }
  let table := (table.ensure key).modify key fun s =>
    { s with
      kind, parameters
      isSystem := true
      isDead := false
      needsUpdate := false
      definitions := definition :: s.definitions.filter fun d => d.access != .declaration
      canonical := some 0 }
  (table, key)

/-- Puts in declarations one after the other. -/
def declareAll (table : SymbolTable) (goal : String) (types : TypeRegistry)
    (declarations : List Declaration) : SymbolTable :=
  declarations.foldl (fun table d => (table.declare goal types d).1) table

/-! ### Goals -/

/-- What a call site in a goal adds to its symbol. A declared symbol takes no definition. -/
def addSite (goal : String) (site : CallSite) (s : StorySymbol) : StorySymbol :=
  let s := { s with usages := s.usages ++ [goal] }
  match definitionShape? site.call with
  | none => s
  | some (kind, access) =>
    let isRead := kind == .database && (access == .read || access == .head .ifRule)
    let isWrite := kind == .database && access == .write
    let s := { s with
      reads := if isRead then s.reads ++ [goal] else s.reads
      writes := if isWrite then s.writes ++ [goal] else s.writes }
    if s.isSystem then s
    else
      let range := site.call.signature.range
      { s with
        definitions := s.definitions ++
          [{ goal, span := range.span, start := range.first, kind, access
             parameters := site.parameters, comment := site.comment }] }

/-- Whether a call site adds a definition to the table. -/
def isDefining (table : SymbolTable) (site : CallSite) : Bool :=
  (definitionShape? site.call).isSome
    && !((table.get? site.key).any fun s => s.isSystem)

/-- Puts in the call sites of a goal, and gives the table of the symbols they call. -/
def addGoal (table : SymbolTable) (goal : String) (types : TypeRegistry) (tree : Goal) :
    SymbolTable × CallTable :=
  let sites := CallSite.ofGoal types tree
  let filled := sites.foldl
    (fun table site => (table.ensure site.key).modify site.key (addSite goal site)) table
  let changed := (sites.filter table.isDefining).map (·.key)
  let refreshed := filled.map fun s => if changed.contains s.key then s.refreshKind else s
  (refreshed.invalidateFrom changed,
    sites.map fun site => (site.call.signature.range.span, site.key))

/-- Takes out what a goal contributed. -/
def removeGoal (table : SymbolTable) (goal : String) : SymbolTable :=
  let changed := (table.symbols.filter fun s => s.definitions.any fun d => d.goal == goal).map (·.key)
  let stripped := table.map fun s =>
    { s with
      definitions := s.definitions.filter fun d => d.goal != goal
      usages := s.usages.filter fun g => g != goal
      reads := s.reads.filter fun g => g != goal
      writes := s.writes.filter fun g => g != goal }
  let refreshed := stripped.map fun s => if changed.contains s.key then s.refreshKind else s
  refreshed.invalidateFrom changed

/-- Whether anything refers to a symbol. -/
def isReferred (s : StorySymbol) : Bool :=
  s.isSystem || !s.definitions.isEmpty || !s.usages.isEmpty

/-- Takes out the symbols to which nothing refers any more. -/
def prune (table : SymbolTable) : SymbolTable := ⟨table.symbols.filter isReferred⟩

end SymbolTable

/-- The type of a variable: the written one, or that of the symbol parameter that its first
mention is. -/
def RuleScope.variableType (scope : RuleScope) (table : SymbolTable) (name : String) : ValueType :=
  match scope.lookup? name with
  | none => .unknown
  | some v =>
    match v.written with
    | some type => type
    | none =>
      let parameter? := v.source?.bind fun ref =>
        (table.get? ref.symbol).bind fun s => s.parameters[ref.index]?
      (parameter?.map (·.type)).getD .unknown

end StoryCheck
