import StoryCheck.Syntax.Tree
import StoryCheck.Token.Stream
/-!
# Reading tokens

What the grammars of goals and headers are built from. A reading step looks at the tokens ahead,
takes some of them and reports what is wrong.

A grammar rule is told which kinds of token belong to the constructs around it (`stops`). Skipping
stops at the kinds it looks for and at those, so a broken construct never swallows the one it
stands in. Each unexpected or missing token is reported once, and a tree results in any case.
-/

namespace StoryCheck.Syntax

/-- A place between two tokens. -/
structure Cursor where
  /-- The tokens that are left, without the one at the end of the text. -/
  ahead : List Token
  /-- The token at the end of the text. -/
  ending : Token
  /-- The token that was taken last. -/
  last : Token := {}
  reports : List Diagnostic := []
deriving Repr, Inhabited

/-- A step of reading. -/
abbrev Parse (α : Type) := StateM Cursor α

namespace Cursor

/-- The place before the first token. -/
def ofTokens (list : TokenList) : Cursor := { ahead := list.tokens, ending := list.last }

/-- The next token. -/
def peek (s : Cursor) : Token := s.ahead.headD s.ending

/-- The kind of the token `k` places behind the next one. -/
def kindAt (s : Cursor) (k : Nat) : TokenKind :=
  match s.ahead[k]? with
  | some token => token.kind
  | none => .endOfFile

/-- The range of the tokens between two places; the next token's place if there are none. -/
def rangeTo (before after : Cursor) : Range :=
  let first := before.peek.range
  if after.ahead.length < before.ahead.length then
    ⟨⟨first.span.start, after.last.range.span.stop⟩, first.first, after.last.range.last⟩
  else
    Range.empty after.peek.range.span.start after.peek.range.first

end Cursor

namespace Parse

/-! ## Looking -/

/-- The next token. -/
def peek : Parse Token := return (← get).peek

/-- The kind of the token `k` places behind the next one. -/
def kindAt (k : Nat) : Parse TokenKind := return (← get).kindAt k

/-- Whether the next token is of a kind. -/
def isAt (kind : TokenKind) : Parse Bool := return (← kindAt 0) == kind

/-- Whether the next token is of one of the kinds. -/
def isAtAny (kinds : KindSet) : Parse Bool := return kinds.contains (← kindAt 0)

/-- Whether the text ends here. -/
def isAtEnd : Parse Bool := isAt .endOfFile

/-- Whether the next token belongs to a construct around this one. -/
def isAtStop (stops : KindSet) : Parse Bool := do
  return (← isAtEnd) || (← isAtAny stops)

/-! ## Taking -/

/-- Takes the next token. The token at the end of the text is never taken away. -/
def take : Parse Token := do
  let s ← get
  match s.ahead with
  | [] => return s.ending
  | token :: ahead =>
    set { s with ahead, last := token }
    return token

/-- Takes the next token if it is of a kind. -/
def eat (kind : TokenKind) : Parse (Option Token) := do
  if ← isAt kind then return some (← take) else return none

/-- Takes tokens up to one of the kinds. -/
def skipTo (kinds : KindSet) : Parse Unit :=
  modify fun s =>
    let skipped := s.ahead.takeWhile fun token => !kinds.contains token.kind
    { s with ahead := s.ahead.drop skipped.length, last := skipped.getLast?.getD s.last }

/-- Takes tokens up to a target or a token of a construct around this one. -/
def skipUntil (stops targets : KindSet) : Parse Unit := skipTo (targets ++ stops)

/-- Takes tokens up to and with a target, unless one of a construct around this one comes first. -/
def skipPast (stops : KindSet) (target : TokenKind) : Parse Unit := do
  skipUntil stops [target]
  discard (eat target)

/-! ## Reporting -/

/-- Reports a diagnostic. -/
def report (d : Diagnostic) : Parse Unit := modify fun s => { s with reports := s.reports ++ [d] }

/-- Reports that another token stands where `expected` is wanted. -/
def reportUnexpected (expected : String) : Parse Unit := do
  let token ← peek
  let span := token.range.span
  report <|
    match token.kind with
    | .endOfFile => .error .unexpectedEndOfFile s!"Expected {expected}, found end of file" span
    | .invalid => .unexpectedToken expected token.kind.describe span
    | _ => .unexpectedToken expected s!"'{token.value}'" span

/-- Reports that `what` is wanted here. -/
def reportMissing (what : String) : Parse Unit := do
  report (.missingToken what (← peek).range.span)

/-- Whether the last report was made at the next token. -/
def isReportedHere : Parse Bool := do
  let s ← get
  return s.reports.getLast?.any fun d => d.span.start == s.peek.range.span.start

/-- Takes a token of a kind, or reports that it is missing. -/
def expect (kind : TokenKind) (what : String) : Parse (Option Token) := do
  match ← eat kind with
  | some token => return some token
  | none =>
    reportMissing what
    return none

/-! ## Building -/

/-- Takes a step and tells the range of the tokens it took. -/
def ranged {α : Type} (step : Parse α) : Parse (α × Range) := do
  let before ← get
  let value ← step
  let after ← get
  return (value, before.rangeTo after)

/-- Takes a step over and over until it declines, at most `bound` times, and puts together what
the steps give. -/
def repeatUpTo {α : Type} (step : Parse (Option (List α))) : (bound : Nat) → Parse (List α)
  | 0 => return []
  | bound + 1 => do
    match ← step with
    | none => return []
    | some found => return found ++ (← repeatUpTo step bound)

/-- Takes a step over and over until it declines. Steps that do not decline take a token and no
step is due at the end of the text, so the number of tokens bounds the number of steps. -/
def many {α : Type} (step : Parse (Option (List α))) : Parse (List α) := do
  repeatUpTo step (← get).ahead.length

/-- The place of a part that is absent. -/
def missingRange : Parse Range := do
  let s ← get
  return s.rangeTo s

end Parse

end StoryCheck.Syntax
