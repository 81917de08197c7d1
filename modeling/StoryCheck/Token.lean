import StoryCheck.Text.Position
/-!
# Tokens

The words and signs of which goals and headers are made. Blanks and comments are not tokens: a
comment is kept with the token that follows it, and the region that a region comment opens is kept
with every token up to the comment that closes it.
-/

namespace StoryCheck

/-- The kinds of token. -/
inductive TokenKind where
  | identifier | guid | integer | real | string | marker
  | and | not | then | if | proc | qry
  | initSection | kbSection | exitSection | endExitSection | goalCompleted
  | equal | notEqual | less | lessEqual | greater | greaterEqual
  | lParen | rParen | lBrace | rBrace | comma | semicolon | dot
  | invalid | endOfFile
deriving DecidableEq, Repr, Inhabited

namespace TokenKind

/-- How a message speaks of a kind of token. -/
def describe : TokenKind → String
  | identifier => "identifier"
  | guid => "GUID"
  | integer => "integer"
  | real => "real"
  | string => "string"
  | marker => "annotation"
  | .and => "'AND'"
  | .not => "'NOT'"
  | .then => "'THEN'"
  | .if => "'IF'"
  | proc => "'PROC'"
  | qry => "'QRY'"
  | initSection => "'INITSECTION'"
  | kbSection => "'KBSECTION'"
  | exitSection => "'EXITSECTION'"
  | endExitSection => "'ENDEXITSECTION'"
  | goalCompleted => "'GoalCompleted'"
  | equal => "'=='"
  | notEqual => "'!='"
  | less => "'<'"
  | lessEqual => "'<='"
  | greater => "'>'"
  | greaterEqual => "'>='"
  | lParen => "'('"
  | rParen => "')'"
  | lBrace => "'\x7b'"
  | rBrace => "'\x7d'"
  | comma => "','"
  | semicolon => "';'"
  | dot => "'.'"
  | invalid => "invalid character"
  | endOfFile => "end of file"

/-- Whether a kind of token compares two values. -/
def isOperator : TokenKind → Bool
  | equal | notEqual | less | lessEqual | greater | greaterEqual => true
  | _ => false

/-- The kind of a word that is reserved. -/
def ofKeyword? : String → Option TokenKind
  | "AND" => some .and
  | "NOT" => some .not
  | "THEN" => some .then
  | "IF" => some .if
  | "PROC" => some .proc
  | "QRY" => some .qry
  | "INITSECTION" => some .initSection
  | "KBSECTION" => some .kbSection
  | "EXITSECTION" => some .exitSection
  | "ENDEXITSECTION" => some .endExitSection
  | "GoalCompleted" => some .goalCompleted
  | _ => none

end TokenKind

/-- A token with its place and what stands before it. -/
structure Token where
  kind : TokenKind := .endOfFile
  /-- The text of the token; a string is given without its quotes. -/
  value : String := ""
  /-- The comment between the token and the one before it. -/
  comment : Option String := none
  /-- The region that is open at the token. -/
  region : Option String := none
  range : Range := Range.empty 0 0
deriving DecidableEq, Repr, Inhabited

/-- Kinds of token, of which one is waited for. -/
abbrev KindSet := List TokenKind

end StoryCheck
