import StoryCheck.Story
/-!
# Questions about a story

What an editor asks a story about: reports, symbols by name and place, and the edits that give a
symbol or a goal another name.
-/

namespace StoryCheck

/-- A text to be put in place of a span. -/
structure TextEdit where
  uri : String
  span : Span
  text : String
deriving DecidableEq, Repr, Inhabited

namespace Story

/-- What there is to report about a goal. -/
def diagnostics (story : Story) (name : String) : List Diagnostic :=
  ((story.goals.get? name).map (·.diagnostics)).getD []

/-- What there is to report about the header and all goals that are not made from it. -/
def allDiagnostics (story : Story) : List Diagnostic :=
  story.headerReports ++ story.goals.ownGoals.flatMap (·.diagnostics)

/-- The symbols of a name, by their number of parameters. -/
def symbolsNamed (story : Story) (name : String) : List StorySymbol :=
  (story.symbols.byName name).mergeSort fun a b => a.arity ≤ b.arity

/-- The symbol that is called at an offset of a goal. -/
def symbolAt? (story : Story) (name : String) (offset : Nat) : Option StorySymbol := do
  let goal ← story.goals.get? name
  let around := goal.calls.filter fun (span, _) => span.start ≤ offset && offset < span.stop
  let size (call : Span × SymbolKey) : Nat := call.1.stop - call.1.start
  let (_, key) ← SymbolTable.least? (fun a b => compare (size a) (size b)) around
  story.symbols.get? key

/-! ## New names -/

/-- The edits that give the calls of a symbol in a goal another name. -/
def renameCalls (key : SymbolKey) (newName : String) (goal : StoryGoal) : List TextEdit :=
  (goal.tree.calls.filter fun call => call.key == key).map fun call =>
    { uri := goal.uri, span := call.signature.identifier.range.span, text := newName }

/-- The edits that give a symbol another name, by address and place. -/
def renameSymbol (story : Story) (key : SymbolKey) (newName : String) : List TextEdit :=
  (story.goals.ownGoals.flatMap (renameCalls key newName)).mergeSort fun a b =>
    ((compare a.uri b.uri).then (compare a.span.start b.span.start)).isLE

/-- The span between the first and the last quotation mark of a text. -/
def betweenQuotes? (cs : List Char) : Option Span :=
  let before := cs.takeWhile (· ≠ '"')
  let upTo := dropEndWhile (· ≠ '"') cs
  let start := byteLength before
  let stop := byteLength upTo.dropLast
  if start < stop then some ⟨start + 1, stop⟩ else none

/-- The edit that gives the parent of an option another name. -/
def renameEdge? (goal : StoryGoal) (option : Range) (newName : String) : Option TextEdit :=
  let start := option.span.start
  (betweenQuotes? (slice start option.span.stop goal.text.toList)).map fun span =>
    { uri := goal.uri, span := ⟨start + span.start, start + span.stop⟩, text := newName }

/-- The edits that give a goal another name where it is the parent of others. -/
def renameGoal (story : Story) (oldName newName : String) : List TextEdit :=
  story.goals.ownGoals.flatMap fun goal =>
    goal.tree.parentEdges.filterMap fun (parent, option) =>
      if parent = oldName then renameEdge? goal option newName else none

end Story

end StoryCheck
