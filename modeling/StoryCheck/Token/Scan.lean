import StoryCheck.Text.Blank
import StoryCheck.Text.Guid
import StoryCheck.Token
/-!
# Lexemes

`scan` says what stands at the start of a text and how many characters belong to it. The longest
reading wins: a word is a keyword only as a whole, a number takes its fraction, and a word or
number whose last characters begin the digits of an instance takes those digits whole. A character
that starts nothing stands alone.

The answer counts characters beyond the first, so a lexeme is never empty and the lexemes of a
text, one behind the other, are the text.
-/

namespace StoryCheck

/-- How a string ends. -/
inductive Quoting where
  /-- By a quote. -/
  | closed
  /-- By a quote, but with a line break before it. -/
  | broken
  /-- Nowhere; it is taken to end with its line. -/
  | unclosed
deriving DecidableEq, Repr, Inhabited

/-- What a stretch of a text is. -/
inductive Lexeme where
  | lineComment
  | blockComment (closed : Bool)
  | quoted (quoting : Quoting)
  /-- A number that ends with its point. -/
  | openReal
  | plain (kind : TokenKind)
deriving DecidableEq, Repr, Inhabited

namespace Lexeme

/-- The characters that part tokens and are not looked at further. -/
def isSeparator (c : Char) : Bool :=
  c == ' ' || c == '\t' || c == '\r' || c == '\n' || c == '\x0c'

/-- A character that ends a line. -/
def isLineBreak (c : Char) : Bool := c == '\r' || c == '\n'

/-- A letter without accents. -/
def isLetter (c : Char) : Bool := c.isAlpha

/-- Number of characters at the start of a text that pass a test. -/
def span (p : Char → Bool) (cs : List Char) : Nat := (cs.takeWhile p).length

/-- Number of characters up to the end of a block comment that is open at the start of the text. -/
def commentEnd? : List Char → Option Nat
  | [] => none
  | '*' :: '/' :: _ => some 2
  | _ :: cs => (commentEnd? cs).map (· + 1)

/-- Number of characters up to the quote that closes a string, and whether a line break stands
before it. A backslash keeps the next character from counting as a quote or a line break. -/
def stringEnd? (broken : Bool) : List Char → Option (Nat × Bool)
  | [] => none
  | '"' :: _ => some (1, broken)
  | ['\\'] => none
  | '\\' :: _ :: cs => (stringEnd? broken cs).map fun (n, b) => (n + 2, b)
  | c :: cs => (stringEnd? (broken || isLineBreak c) cs).map fun (n, b) => (n + 1, b)

/-- A string whose opening quote stands before the text. Without a closing quote it ends with its
line, so that a forgotten quote does not swallow what follows. -/
def scanString (cs : List Char) : Lexeme × Nat :=
  match stringEnd? false cs with
  | some (n, broken) => (quoted (if broken then .broken else .closed), n)
  | none => (quoted .unclosed, span (fun c => !isLineBreak c) cs)

/-- A number: its length counts from the sign, if there is one, else from the first digit. -/
def scanNumber (text : List Char) : Lexeme × Nat :=
  let signed := text.head? == some '-'
  let body := if signed then text.drop 1 else text
  let sign := if signed then 1 else 0
  let whole := span Char.isDigit body
  match body.drop whole with
  | '.' :: fraction =>
    let places := span Char.isDigit fraction
    (if places = 0 then openReal else plain .real, sign + whole + 1 + places)
  | _ =>
    if !signed && whole ≤ 8 && Guid.startsText text then (plain .guid, Guid.length)
    else (plain .integer, sign + whole)

/-- A word: a keyword, the digits of an instance behind a name or alone, or a name. The digits of
an instance begin with eight that can end a word. -/
def scanWord (text : List Char) : Lexeme × Nat :=
  let word := text.takeWhile Guid.isWordChar
  match TokenKind.ofKeyword? (String.ofList word) with
  | some kind => (plain kind, word.length)
  | none =>
    let head := word.take (word.length - 8)
    if 8 ≤ word.length && (head.isEmpty || head.getLast? == some '_')
        && Guid.startsText (text.drop head.length) then
      (plain .guid, head.length + Guid.length)
    else
      (plain .identifier, word.length)

/-- A bracket with letters in it. Without the closing bracket the letters go with the opening one. -/
def scanMarker (cs : List Char) : Lexeme × Nat :=
  let letters := span isLetter cs
  match cs.drop letters with
  | ']' :: _ => (plain .marker, letters + 1)
  | _ => (plain .invalid, letters)

/-- A sign that reads differently with an equals sign behind it. -/
def scanSign (alone joined : TokenKind) (cs : List Char) : Lexeme × Nat :=
  if cs.head? == some '=' then (plain joined, 1) else (plain alone, 0)

/-- What stands at the start of `c :: cs`, and how many characters of `cs` belong to it. -/
def scan (c : Char) (cs : List Char) : Lexeme × Nat :=
  if c.isDigit || (c == '-' && cs.head?.any Char.isDigit) then
    let (lexeme, n) := scanNumber (c :: cs)
    (lexeme, n - 1)
  else if isLetter c || c == '_' then
    let (lexeme, n) := scanWord (c :: cs)
    (lexeme, n - 1)
  else
    match c with
    | '/' =>
      match cs with
      | '/' :: _ => (lineComment, span (fun c => !isLineBreak c) cs)
      | '*' :: body =>
        match commentEnd? body with
        | some n => (blockComment true, 1 + n)
        | none => (blockComment false, cs.length)
      | _ => (plain .invalid, 0)
    | '"' => scanString cs
    | '[' => scanMarker cs
    | '=' => scanSign .invalid .equal cs
    | '!' => scanSign .invalid .notEqual cs
    | '<' => scanSign .less .lessEqual cs
    | '>' => scanSign .greater .greaterEqual cs
    | '(' => (plain .lParen, 0)
    | ')' => (plain .rParen, 0)
    | '\x7b' => (plain .lBrace, 0)
    | '\x7d' => (plain .rBrace, 0)
    | ',' => (plain .comma, 0)
    | ';' => (plain .semicolon, 0)
    | '.' => (plain .dot, 0)
    | _ => (plain .invalid, 0)

end Lexeme

end StoryCheck
