import StoryCheck.Syntax.GoalGrammar
import StoryCheck.Syntax.Header
/-!
# The grammar of headers

A header is a list of aliases, options, declarations and goals in any order. The sections of a
goal are not read here: their text is kept, without the indentation it shares, to be read later
with the grammar of goals. What the tokens of such a text do wrong is reported then and not here.
-/

namespace StoryCheck.Syntax

open Parse

/-! ## Sections -/

/-- Cuts a text at every line feed, which belongs to no line. -/
def splitLines : List Char → List (List Char)
  | [] => [[]]
  | c :: cs =>
    if c = '\n' then [] :: splitLines cs
    else
      match splitLines cs with
      | [] => [[c]]
      | line :: lines => (c :: line) :: lines

/-- Number of tabs at the start of a line. -/
def leadingTabs (line : List Char) : Nat := (line.takeWhile (· == '\t')).length

/-- The number of leading tabs that all lines have which are not blank. -/
def sharedTabs (lines : List (List Char)) : Nat :=
  ((lines.filter fun line => !(line.all isBlank)).map leadingTabs).min?.getD 0

/-- The lines without `level` leading tabs and without the carriage return that may end them, each
with the offset at which it starts now; `offset` is that of the first line. -/
def dedentLines (level : Nat) (offset : Nat) : List (List Char) → List (List Char × Nat)
  | [] => []
  | line :: lines =>
    let cut := min (leadingTabs line) level
    let kept := (if line.getLast? == some '\r' then line.dropLast else line).drop cut
    (kept, offset + cut) :: dedentLines level (offset + byteLength line + 1) lines

/-- The section whose text stands at an offset of the header: line breaks around it and shared
tabs are cut off, and blanks at its end. -/
def Section.ofText (offset : Nat) (text : List Char) : Section :=
  let body := text.dropWhile Lexeme.isLineBreak
  let start := offset + (byteLength text - byteLength body)
  let lines := splitLines (dropEndWhile Lexeme.isLineBreak body)
  let dedented := dedentLines (sharedTabs lines) start lines
  { text := trimEnd (['\n'].intercalate (dedented.map (·.1)))
    origins := dedented.map (·.2) }

/-- Braces with any text between them, of which the span is given. -/
def rawBlock : Parse (Option Span) := do
  match ← expect .lBrace "'\x7b'" with
  | none => return none
  | some brace =>
    skipTo [.rBrace]
    let stop := (← peek).range.span.start
    discard (expect .rBrace "'\x7d'")
    return some ⟨brace.range.span.stop, stop⟩

/-! ## Goals -/

/-- An integer in brackets, if it is one and fits 64 bits. -/
def bracketedInteger (stops : KindSet) : Parse (Option Int) := do
  if (← expect .lParen "'('").isNone then
    return none
  let token ← expect .integer "integer"
  if (← expect .rParen "')'").isNone then
    skipPast stops .rParen
  return token.bind fun token => Decimal.int64? token.value.toList

/-- An entry of a header goal. -/
inductive GoalEntry where
  | title (title : Option String)
  | subGoal (id : Option Int)
  | init (block : Option Span)
  | kb (block : Option Span)
  | exit (block : Option Span)
deriving DecidableEq, Repr, Inhabited

/-- The title in brackets. -/
def title : Parse (Option String) := do
  if (← expect .lParen "'('").isNone then
    return none
  let title ← expect .string "goal title"
  discard (expect .rParen "')'")
  return title.map (·.value)

/-- An entry of a header goal, opened by a word. Other tokens are reported one by one. -/
def goalEntry (stops : KindSet) : Parse (Option (List GoalEntry)) := do
  if ← isAtStop stops then
    return none
  match (← peek).value with
  | "Title" =>
    discard take
    let title ← title
    discard (eat .semicolon)
    return some [.title title]
  | "SubGoal" =>
    discard take
    let id ← bracketedInteger stops
    discard (eat .semicolon)
    return some [.subGoal id]
  | "INIT" =>
    discard take
    return some [.init (← rawBlock)]
  | "KB" =>
    discard take
    return some [.kb (← rawBlock)]
  | "EXIT" =>
    discard take
    return some [.exit (← rawBlock)]
  | _ =>
    reportUnexpected "Title, SubGoal, INIT, KB or EXIT"
    discard take
    return some []

/-- A header goal without its range: `Goal(id) \x7b entries \x7d`. -/
def goalEntries : Parse (Int × List GoalEntry) := do
  discard take
  let id := (← bracketedInteger []).getD 0
  if (← expect .lBrace "'\x7b'").isNone then
    return (id, [])
  let entries ← many (goalEntry [.rBrace])
  discard (expect .rBrace "'\x7d'")
  return (id, entries)

/-- The block that an entry brings, if it is a section. -/
def GoalEntry.block? : GoalEntry → Option Span
  | init block | kb block | exit block => block
  | _ => none

/-- The last of the values that entries give. -/
def lastGiven? {α : Type} (f : GoalEntry → Option α) (entries : List GoalEntry) : Option α :=
  (entries.filterMap f).getLast?

/-- The header goal of entries: of a title or section that is given several times the last counts. -/
def HeaderGoal.ofEntries (source : List Char) (id : Int) (entries : List GoalEntry)
    (range : Range) : HeaderGoal :=
  let text (block : Option Span) : Section :=
    (block.map fun span => Section.ofText span.start (slice span.start span.stop source)).getD {}
  { id
    title := (lastGiven? (fun | .title title => title | _ => none) entries).getD ""
    subGoals := entries.filterMap fun | .subGoal id => id | _ => none
    init := text (lastGiven? (fun | .init block => block | _ => none) entries)
    kb := text (lastGiven? (fun | .kb block => block | _ => none) entries)
    exit := text (lastGiven? (fun | .exit block => block | _ => none) entries)
    range }

/-! ## Declarations -/

/-- An option or version: what else stands on its line is passed over. -/
def headerOption : Parse Unit := do
  let keyword ← take
  modify fun s =>
    let skipped := s.ahead.takeWhile fun token =>
      token.range.first.line == keyword.range.first.line
    { s with ahead := s.ahead.drop skipped.length, last := skipped.getLast?.getD s.last }

/-- The base of an alias in braces, behind the opening one. -/
def aliasBase : Parse (Option AliasBase) := do
  let token ← peek
  match token.kind with
  | .identifier =>
    discard take
    return some (.named token.value)
  | .integer =>
    discard take
    return some (.id ((Decimal.int64? token.value.toList).getD 0))
  | _ =>
    reportUnexpected "base type"
    skipPast [] .rBrace
    return none

/-- The base and the name of an alias, if both are there. -/
def aliasParts : Parse (Option (AliasBase × String)) := do
  discard take
  if (← expect .lBrace "'\x7b'").isNone then
    return none
  match ← aliasBase with
  | none => return none
  | some base =>
    if (← expect .rBrace "'\x7d'").isNone then
      return none
    match ← expect .identifier "alias name" with
    | none => return none
    | some name =>
      discard (eat .semicolon)
      return some (base, name.value)

/-- A definition: keyword, signature, and perhaps a list of numbers and a semicolon, which mean
nothing. -/
def definition (kind : DeclarationKind) : Parse Definition := do
  let (signature, range) ← ranged do
    discard take
    let signature ← signature []
    if ← isAt .lParen then
      skipPast [] .rParen
    discard (eat .semicolon)
    return signature
  return ⟨kind, signature, range⟩

/-! ## Headers -/

/-- An entry of a header. -/
inductive HeaderEntry where
  | typeAlias (base : TypeAlias)
  | definition (definition : Definition)
  | goal (goal : HeaderGoal) (blocks : List Span)
deriving DecidableEq, Repr, Inhabited

/-- An entry of a header, opened by a word. Other tokens are reported one by one. -/
def headerEntry (source : List Char) : Parse (Option (List HeaderEntry)) := do
  let token ← peek
  match token.kind with
  | .endOfFile => return none
  | .identifier =>
    match token.value with
    | "alias_type" =>
      let (parts, range) ← ranged aliasParts
      return some (parts.map fun (base, name) => HeaderEntry.typeAlias ⟨name, base, range⟩).toList
    | "option" | "version" =>
      headerOption
      return some []
    | "Goal" =>
      let ((id, entries), range) ← ranged goalEntries
      return some [.goal (.ofEntries source id entries range)
        (entries.filterMap GoalEntry.block?)]
    | word =>
      match DeclarationKind.ofWord? word with
      | some kind => return some [.definition (← definition kind)]
      | none => unexpected
  | _ => unexpected
where
  unexpected : Parse (Option (List HeaderEntry)) := do
    reportUnexpected "header declaration"
    discard take
    return some []

/-- A header, to the end of the text, and the spans of the sections in it. -/
def header (source : List Char) : Parse (Header × List Span) := do
  let (entries, range) ← ranged (many (headerEntry source))
  let header : Header :=
    { definitions := entries.filterMap fun | .definition d => some d | _ => none
      goals := entries.filterMap fun | .goal goal _ => some goal | _ => none
      aliases := entries.filterMap fun | .typeAlias a => some a | _ => none
      range }
  return (header, entries.flatMap fun | .goal _ blocks => blocks | _ => [])

/-- A header as it was read. -/
structure ParsedHeader where
  tree : Header
  /-- What is wrong outside the sections of goals, by place. -/
  diagnostics : List Diagnostic
deriving DecidableEq, Repr, Inhabited

/-- Whether an offset lies in a span. -/
def isWithin (offset : Nat) (span : Span) : Bool := span.start ≤ offset && offset < span.stop

/-- Reads a header. -/
def parseHeader (text : String) : ParsedHeader :=
  let list := TokenList.ofText text
  let ((tree, blocks), after) := (header text.toList).run (Cursor.ofTokens list)
  let found := Diagnostic.sortBySpan (list.reports ++ after.reports)
  { tree
    diagnostics := found.filter fun d => !blocks.any (isWithin d.span.start) }

end StoryCheck.Syntax
