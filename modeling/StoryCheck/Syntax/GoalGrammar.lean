import StoryCheck.Syntax.Parse
import StoryCheck.Text.Decimal
/-!
# The grammar of goals

A goal is written `[options] INITSECTION actions KBSECTION rules EXITSECTION actions
ENDEXITSECTION [options]`. Reading is by recursive descent with at most one token beyond the next
one looked at; every rule of the grammar is one function, and how each gets over damage is written
where it happens.
-/

namespace StoryCheck.Syntax

open Parse

/-! ## Kinds of token that open something -/

/-- The keywords of the sections. -/
def sectionKeywords : KindSet := [.initSection, .kbSection, .exitSection, .endExitSection]

/-- The keywords that open a rule. -/
def ruleStart : KindSet := [.if, .proc, .qry]

/-- The tokens that open an action. -/
def actionStart : KindSet := [.identifier, .not, .goalCompleted]

/-- The tokens that open a parameter. -/
def parameterStart : KindSet :=
  [.marker, .lParen, .identifier, .guid, .integer, .real, .string]

/-! ## Parameters -/

/-- An identifier that is written by a token. -/
def Identifier.ofToken (token : Token) : Identifier := ⟨token.value, token.range⟩

/-- The term that a token writes. An integer that does not fit 64 bits stands for zero. -/
def termOfToken? (token : Token) : Option Term :=
  match token.kind with
  | .identifier => some (.name token.value)
  | .guid => some (.guid token.value)
  | .integer => some (.integer ((Decimal.int64? token.value.toList).getD 0))
  | .real => some (.real (Decimal.doubleBits token.value.toList))
  | .string => some (.string token.value)
  | _ => none

/-- An argument: a name or a constant. -/
def argument : Parse Argument := do
  let token ← peek
  match termOfToken? token with
  | some term =>
    if token.kind = .integer && (Decimal.int64? token.value.toList).isNone then
      report (.error .unexpectedToken s!"Integer literal '{token.value}' is out of range"
        token.range.span)
    discard take
    return ⟨term, token.range⟩
  | none =>
    reportUnexpected "parameter value"
    return ⟨.name "", ← missingRange⟩

/-- A type in brackets. -/
def typeHint (stops : KindSet) : Parse TypeHint := do
  let (name, range) ← ranged do
    discard take
    let name ← expect .identifier "type name"
    if (← expect .rParen "closing bracket ')'").isNone then
      skipPast stops .rParen
    return (name.map (·.value)).getD ""
  return ⟨name, range⟩

/-- The text of an annotation without its brackets. -/
def markerWord (value : String) : List Char :=
  dropEndWhile isBracket (value.toList.dropWhile isBracket)
where
  isBracket (c : Char) : Bool := c == '[' || c == ']'

/-- The direction in front of a parameter, if there is one. -/
def flow : Parse (Option Flow) := do
  match ← eat .marker with
  | none => return none
  | some token =>
    let word := String.ofList (markerWord token.value)
    if word = "in" then return some .input
    else if word = "out" then return some .output
    else
      report (.error .invalidMarker
        s!"Unknown annotation '[{word}]', expected [in] or [out]" token.range.span)
      return none

/-- A parameter: `[direction] (TYPE) argument`, of which only the argument must be there. -/
def parameter (stops : KindSet) : Parse Parameter := do
  let ((flow, type, argument), range) ← ranged do
    let flow ← flow
    let type ← if ← isAt .lParen then some <$> typeHint stops else pure none
    return (flow, type, ← argument)
  return ⟨flow, type, argument, range⟩

/-- Reports that a bracket is not closed and goes on behind the closing one, if it can be found. -/
def unclosed (stops : KindSet) : Parse Unit := do
  reportMissing "closing bracket ')'"
  skipPast stops .rParen

/-- Parameters with commas between them, up to the closing bracket. A comma is followed by a
parameter, which takes a token, so `bound` is never used up if it exceeds the number of tokens. -/
def parameterList (stops : KindSet) : (bound : Nat) → Parse (List Parameter)
  | 0 => return []
  | bound + 1 => do
    if !(← isAtAny parameterStart) then
      unclosed stops
      return []
    let first ← parameter ([.comma, .rParen] ++ stops)
    if (← eat .comma).isSome then
      return first :: (← parameterList stops bound)
    if (← eat .rParen).isNone then
      unclosed stops
    return [first]

/-! ## Signatures -/

/-- The parameter that the name before a dot stands for. -/
def ownerParameter (token : Token) : Parameter :=
  ⟨none, none, ⟨.name token.value, token.range⟩, token.range⟩

/-- A signature: `Name(parameters)`, or `Owner.Name(parameters)`, which hands over the owner as
the first parameter. -/
def signature (stops : KindSet) : Parse Signature := do
  let ((identifier, parameters), range) ← ranged do
    match ← expect .identifier "symbol name" with
    | none => return (⟨"", ← missingRange⟩, [])
    | some first =>
      let (identifier, owner) ←
        if (← isAt .dot) && (← kindAt 1) == .identifier then do
          discard take
          let name ← take
          pure (Identifier.ofToken name, [ownerParameter first])
        else
          pure (Identifier.ofToken first, [])
      if (← expect .lParen "'('").isNone then
        return (identifier, owner)
      if (← eat .rParen).isSome then
        return (identifier, owner)
      return (identifier, owner ++ (← parameterList stops ((← get).ahead.length + 1)))
  return ⟨identifier, parameters, range⟩

/-! ## Conditions -/

/-- A comparison of two parameters. Without an operator the rest of the condition is passed over;
nothing is reported if the left side was reported at the same token. -/
def comparison (stops : KindSet) : Parse Condition.Form := do
  let left ← parameter stops
  match Operator.ofKind? (← kindAt 0) with
  | some operator =>
    discard take
    return .comparison operator left (.parameter (← parameter stops))
  | none =>
    if !(← isReportedHere) then
      reportUnexpected "comparison operator"
    skipUntil stops []
    return .comparison .equal left (.missing (← missingRange))

/-- A condition: a call, perhaps with NOT in front, or a comparison. -/
def condition (stops : KindSet) : Parse Condition := do
  let (form, range) ← ranged do
    if (← eat .not).isSome then
      return .call (← signature stops) true
    if (← isAt .identifier) && [.lParen, .dot].contains (← kindAt 1) then
      return .call (← signature stops) false
    comparison stops
  return ⟨form, range⟩

/-- The conditions of a rule, each behind AND. -/
def conditionBlock (stops : KindSet) : Parse ConditionBlock := do
  let (conditions, range) ← ranged <| many do
    if (← eat .and).isSome then
      return some [← condition (.and :: stops)]
    else
      return none
  return ⟨conditions, range⟩

/-! ## Actions -/

/-- An action: `GoalCompleted;`, or a call, perhaps with NOT in front. After a missing semicolon
an action that starts right away is read as one; else the next semicolon is looked for. -/
def action (stops stop : KindSet) : Parse Action := do
  let (form, range) ← ranged do
    if (← eat .goalCompleted).isSome then
      discard (expect .semicolon "';'")
      return .goalCompleted
    let negated := (← eat .not).isSome
    let signature ← signature (.semicolon :: stop ++ stops)
    if (← expect .semicolon "';'").isNone then
      if !(← isAtAny actionStart) then
        skipUntil stops (.semicolon :: stop)
        discard (eat .semicolon)
    return .call signature negated
  return ⟨form, range⟩

/-- Actions up to a kind in `stop`. -/
def actionBlock (stops stop : KindSet) : Parse ActionBlock := do
  let (actions, range) ← ranged <| many do
    if (← isAtAny stop) || (← isAtStop stops) then
      return none
    if ← isAtAny actionStart then
      return some [← action stops stop]
    reportUnexpected "action"
    discard take
    skipUntil stops (actionStart ++ stop)
    return some []
  return ⟨actions, range⟩

/-! ## Rules -/

/-- The kind of rule that a keyword opens. -/
def ruleKind : TokenKind → RuleKind
  | .if => .ifRule
  | .qry => .query
  | _ => .proc

/-- A rule: keyword, head, conditions, THEN, actions. A call where THEN should be is read as the
first action. -/
def rule (stops : KindSet) : Parse Rule := do
  let (rule, range) ← ranged do
    let keyword ← take
    let head ← signature ([.then, .and] ++ ruleStart ++ stops)
    let conditions ← conditionBlock (.then :: ruleStart ++ stops)
    if (← expect .then "'THEN'").isNone then
      if !((← isAt .identifier) && (← kindAt 1) == .lParen) then
        skipUntil stops (.then :: ruleStart)
        discard (eat .then)
    let actions ← actionBlock stops ruleStart
    if actions.actions.isEmpty then
      report (.warning .emptyActionBlock "Rule has no actions; use DB_NOOP(1); as a no-op"
        actions.range.span)
    return fun range : Range =>
      { kind := ruleKind keyword.kind
        head, conditions, actions
        region := keyword.region
        comment := keyword.comment
        range : Rule }
  return rule range

/-- The rules of a knowledge base. -/
def rules (stops : KindSet) : Parse (List Rule) := many do
  if ← isAtStop stops then
    return none
  if ← isAtAny ruleStart then
    return some [← rule stops]
  reportUnexpected "rule (IF, PROC or QRY)"
  discard take
  skipUntil stops ruleStart
  return some []

/-! ## Options -/

/-- What is wrong with an option, if it has a value. -/
def optionProblem (name : String) (value : OptionValue) (placement : OptionPlacement) :
    Option String :=
  if value = .missing then none
  else
    match name, placement with
    | "Version", .header => if value = .integer 1 then none else some "Version must be 1"
    | "SubGoalCombiner", .header =>
      if value = .identifier "SGC_AND" then none else some "SubGoalCombiner must be SGC_AND"
    | "ParentTargetEdge", .footer =>
      match value with
      | .string _ => none
      | _ => some "ParentTargetEdge expects a goal name string"
    | "Version", .footer => some "Option 'Version' must appear before INITSECTION"
    | "SubGoalCombiner", .footer =>
      some "Option 'SubGoalCombiner' must appear before INITSECTION"
    | "ParentTargetEdge", .header =>
      some "Option 'ParentTargetEdge' must appear after ENDEXITSECTION"
    | name, _ => some s!"Unknown goal option '{name}'"

/-- The value that a token writes, for the tokens that write one. An integer that does not fit 64
bits counts as none. -/
def optionValue? (token : Token) : Option OptionValue :=
  match token.kind with
  | .integer =>
    some (match Decimal.int64? token.value.toList with
      | some value => .integer value
      | none => .missing)
  | .identifier => some (.identifier token.value)
  | .string => some (.string token.value)
  | _ => none

/-- An option: name, value and perhaps a semicolon. -/
def goalOption (placement : OptionPlacement) : Parse GoalOption := do
  let ((name, value), range) ← ranged do
    let name ← take
    let value ← match optionValue? (← peek) with
      | some value => do
        discard take
        pure value
      | none => do
        reportMissing "option value"
        pure OptionValue.missing
    discard (eat .semicolon)
    return (name.value, value)
  if let some problem := optionProblem name value placement then
    report (.error .invalidOption problem range.span)
  return ⟨name, value, placement, range⟩

/-- The options before the sections, up to the first token that is not a name. -/
def headerOptions : Parse (List GoalOption) := many do
  if ← isAt .identifier then
    return some [← goalOption .header]
  else
    return none

/-- The options behind the sections, up to the end of the text. -/
def footerOptions (stops : KindSet) : Parse (List GoalOption) := many do
  if ← isAt .identifier then
    return some [← goalOption .footer]
  if ← isAtEnd then
    return none
  reportUnexpected "goal option"
  discard take
  skipUntil stops [.identifier]
  return some []

/-! ## Goals -/

/-- A goal, to the end of the text. -/
def goal : Parse Goal := do
  let stops := sectionKeywords
  let (goal, range) ← ranged do
    let header ← headerOptions
    discard (expect .initSection "'INITSECTION'")
    let init ← actionBlock stops ruleStart
    discard (expect .kbSection "'KBSECTION'")
    let rules ← rules stops
    discard (expect .exitSection "'EXITSECTION'")
    let exit ← actionBlock stops ruleStart
    discard (expect .endExitSection "'ENDEXITSECTION'")
    let footer ← footerOptions stops
    return fun range : Range =>
      { options := header ++ footer, init, rules, exit, range : Goal }
  return goal range

/-- A goal as it was read. -/
structure ParsedGoal where
  tree : Goal
  /-- What is wrong with the tokens and with the grammar, by place. -/
  diagnostics : List Diagnostic
deriving DecidableEq, Repr, Inhabited

/-- Reads a goal from its tokens. -/
def parseGoalTokens (list : TokenList) : ParsedGoal :=
  let (tree, after) := goal.run (Cursor.ofTokens list)
  { tree, diagnostics := Diagnostic.sortBySpan (list.reports ++ after.reports) }

/-- Reads a goal from its text. -/
def parseGoal (text : String) : ParsedGoal := parseGoalTokens (.ofText text)

end StoryCheck.Syntax
