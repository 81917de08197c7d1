import StoryCheck.Diagnostic
import StoryCheck.Token.Scan
/-!
# The tokens of a text

A `Scanner` stands between two lexemes of a text. One `step` passes a separator or a lexeme; a
lexeme that is a token is stamped with its place, the comment before it and the open region.
`Token.ofText` takes steps to the end of the text. `Lookahead` hands tokens out one at a time and
lets a reader look at up to three more, which wait in a ring of slots.
-/

namespace StoryCheck

/-! ## Comments -/

/-- What a comment leaves behind: the text that goes to the next token, and the open region. -/
structure Remarks where
  comment : Option String := none
  region : Option String := none
deriving DecidableEq, Repr, Inhabited

namespace Remarks

/-- Adds a comment that runs to the end of its line. It opens or closes a region if it says so;
otherwise it is a further line of the comment before the next token. -/
def addLine (remarks : Remarks) (text : List Char) : Remarks :=
  match afterLead? "//REGION".toList text with
  | some name => { remarks with region := some (String.ofList (trim name)) }
  | none =>
    if (afterLead? "//END_REGION".toList text).isSome then
      { remarks with region := none }
    else
      let line := String.ofList (trim (text.dropWhile (· == '/')))
      match remarks.comment with
      | some comment => { remarks with comment := some (comment ++ "\n" ++ line) }
      | none => { remarks with comment := some line }

/-- Adds a block comment, which replaces the comment before it. -/
def addBlock (remarks : Remarks) (text : List Char) : Remarks :=
  let body := dropLeads '/' ['*'] text
  let body := (dropLeads '/' ['*'] body.reverse).reverse
  { remarks with comment := some (String.ofList (trim body)) }

end Remarks

/-! ## Steps -/

/-- A place between two lexemes of a text. -/
structure Scanner where
  rest : List Char
  offset : Nat := 0
  remarks : Remarks := {}
deriving Repr, Inhabited

/-- What a step finds: perhaps a token, perhaps something to report, and the place after it. -/
structure Scanner.Step where
  token : Option Token := none
  reports : List Diagnostic := []
  scanner : Scanner
deriving Repr, Inhabited

namespace Scanner

/-- The scanner before the first lexeme of a text. -/
def ofText (text : String) : Scanner := { rest := text.toList }

/-- A token of the text over a span, with the remarks at its place. -/
def stamp (index : LineIndex) (remarks : Remarks) (kind : TokenKind) (value : List Char)
    (span : Span) : Token :=
  { kind
    value := String.ofList value
    comment := remarks.comment
    region := remarks.region
    range := ⟨span, index.position span.start, index.position span.stop⟩ }

/-- The diagnostic that a lexeme deserves for its shape. -/
def complaint (lexeme : Lexeme) (span : Span) : List Diagnostic :=
  match lexeme with
  | .blockComment false => [.error .unterminatedComment "Unterminated block comment" span]
  | .quoted .broken =>
    [.error .lineBreakInString "String literal contains a line break" span]
  | .quoted .unclosed => [.error .unterminatedString "Unterminated string literal" span]
  | .openReal => [.error .unterminatedFloat "Expected digits after the decimal point" span]
  | _ => []

/-- The kind of token that a lexeme is, and its value; comments are no tokens. -/
def token? (lexeme : Lexeme) (text : List Char) : Option (TokenKind × List Char) :=
  match lexeme with
  | .lineComment | .blockComment _ => none
  | .quoted .unclosed => some (.string, text.drop 1)
  | .quoted _ => some (.string, (text.drop 1).dropLast)
  | .openReal => some (.real, text)
  | .plain kind => some (kind, text)

/-- The remarks after a lexeme: a comment adds to them, and a token takes the comment away. -/
def remarksAfter (remarks : Remarks) (lexeme : Lexeme) (text : List Char) : Remarks :=
  match lexeme with
  | .lineComment => remarks.addLine text
  | .blockComment _ => remarks.addBlock text
  | _ => { remarks with comment := none }

/-- Passes what stands at `c :: cs`, with the scanner's own rest taken to be that text. -/
def step (index : LineIndex) (s : Scanner) (c : Char) (cs : List Char) : Step :=
  if Lexeme.isSeparator c then
    { scanner := { s with rest := cs, offset := s.offset + c.utf8Size } }
  else
    let (lexeme, more) := Lexeme.scan c cs
    let text := c :: cs.take more
    let span : Span := ⟨s.offset, s.offset + byteLength text⟩
    { token := (token? lexeme text).map fun (kind, value) => stamp index s.remarks kind value span
      reports := complaint lexeme span
      scanner :=
        { rest := cs.drop more
          offset := span.stop
          remarks := remarksAfter s.remarks lexeme text } }

/-- A step passes at least one character. -/
theorem length_rest_step (index : LineIndex) (s : Scanner) (c : Char) (cs : List Char) :
    (step index s c cs).scanner.rest.length < (c :: cs).length := by
  unfold step
  split
  · simp
  · simp only [List.length_drop, List.length_cons]
    omega

/-- The token that stands at the end of the text. -/
def endToken (index : LineIndex) (s : Scanner) : Token :=
  stamp index s.remarks .endOfFile [] ⟨s.offset, s.offset⟩

/-- Takes steps up to and with the next token. The token at the end of the text takes the comment
before it, so it has none when it is asked for again. -/
def next (index : LineIndex) (s : Scanner) : Token × List Diagnostic × Scanner :=
  match _h : s.rest with
  | [] => (endToken index s, [], { s with remarks := { s.remarks with comment := none } })
  | c :: cs =>
    let found := step index s c cs
    match found.token with
    | some token => (token, found.reports, found.scanner)
    | none =>
      let (token, reports, scanner) := next index found.scanner
      (token, found.reports ++ reports, scanner)
termination_by s.rest.length
decreasing_by
  rw [_h]
  exact length_rest_step index s c cs

end Scanner

/-! ## All tokens -/

/-- The tokens of a text, the token at its end apart, and what there is to report on them. -/
structure TokenList where
  tokens : List Token := []
  last : Token := {}
  reports : List Diagnostic := []
deriving Repr, Inhabited

namespace TokenList

/-- Takes steps to the end of the text. -/
def collect (index : LineIndex) (s : Scanner) : TokenList :=
  match _h : s.rest with
  | [] => { last := s.endToken index }
  | c :: cs =>
    let found := s.step index c cs
    let more := collect index found.scanner
    { tokens := found.token.toList ++ more.tokens
      last := more.last
      reports := found.reports ++ more.reports }
termination_by s.rest.length
decreasing_by
  rw [_h]
  exact Scanner.length_rest_step index s c cs

/-- The tokens of a text. -/
def ofText (text : String) : TokenList := collect (.ofText text) (.ofText text)

/-- All tokens with the one at the end. -/
def all (list : TokenList) : List Token := list.tokens ++ [list.last]

end TokenList

/-! ## Looking ahead -/

/-- How far beyond the next token a reader may look. -/
def Lookahead.reach : Nat := 3

/-- Number of tokens for which there is a slot. -/
def Lookahead.slots : Nat := 5

/-- Hands out the tokens of a text one at a time. Tokens that were looked at wait until they are
handed out, in a ring of slots: the next one at `head`, the others behind it, the first slot being
behind the last. -/
structure Lookahead where
  index : LineIndex
  scanner : Scanner
  ring : Vector Token Lookahead.slots := .replicate Lookahead.slots {}
  head : Fin Lookahead.slots := ⟨0, by decide⟩
  /-- Number of tokens that wait. -/
  waiting : Nat := 0
  /-- The token that was handed out last. -/
  last : Token := {}
  reports : List Diagnostic := []
deriving Repr

namespace Lookahead

/-- Stands before the first token of a text. -/
def ofText (text : String) : Lookahead := { index := .ofText text, scanner := .ofText text }

/-- The slot `k` places behind the head. -/
def slot (s : Lookahead) (k : Nat) : Fin slots := ⟨(s.head + k) % slots, Nat.mod_lt _ (by decide)⟩

/-- Reads one more token of the text into the slot behind those in which tokens wait. -/
def fill (s : Lookahead) : Lookahead :=
  let (token, reports, scanner) := s.scanner.next s.index
  { s with
    scanner
    ring := s.ring.set (s.slot s.waiting) token
    waiting := s.waiting + 1
    reports := s.reports ++ reports }

/-- Hands out the token at the head and leaves its slot empty. -/
def take (s : Lookahead) : Token × Lookahead :=
  let token := s.ring.get s.head
  (token,
    { s with
      ring := s.ring.set s.head {}
      head := s.slot 1
      waiting := s.waiting - 1
      last := token })

/-- Hands out the next token. At the end of the text that is the token at the end, any number of
times. -/
def next (s : Lookahead) : Token × Lookahead :=
  if s.waiting = 0 then s.fill.take else s.take

/-- Reads `n` more tokens. -/
def fillBy (s : Lookahead) : (n : Nat) → Lookahead
  | 0 => s
  | n + 1 => s.fill.fillBy n

/-- Looks at the token `k` places behind the next one, or at the last one within reach. -/
def peek (s : Lookahead) (k : Nat) : Token × Lookahead :=
  let k := min k reach
  let s := s.fillBy (k + 1 - s.waiting)
  (s.ring.get (s.slot k), s)

end Lookahead

end StoryCheck
