/-!
# Lines, keys and strings of TOML

Each function looks at the start of a text and gives what it found with the rest of the text, or
nothing if the text is not well-formed there.
-/

namespace StoryCheck.Toml

/-! ## Between the parts -/

/-- A space or tab. -/
def isGap (c : Char) : Bool := c == ' ' || c == '\t'

/-- A control character that may stand nowhere; the tab may. -/
def isControl (c : Char) : Bool := (c.toNat < 0x20 && c != '\t') || c.toNat == 0x7F

/-- Drops spaces and tabs. -/
def skipGaps (cs : List Char) : List Char := cs.dropWhile isGap

/-- What follows a line end. -/
def afterNewline? : List Char → Option (List Char)
  | '\n' :: rest => some rest
  | '\r' :: '\n' :: rest => some rest
  | _ => none

/-- What follows blank lines and comments. -/
def skipLines : (inComment : Bool) → List Char → Option (List Char)
  | _, [] => some []
  | _, '\n' :: rest => skipLines false rest
  | _, '\r' :: '\n' :: rest => skipLines false rest
  | true, c :: rest => if isControl c then none else skipLines true rest
  | false, '#' :: rest => skipLines true rest
  | false, c :: rest => if isGap c then skipLines false rest else some (c :: rest)

/-- Drops a comment up to the end of its line. -/
def skipComment : List Char → Option (List Char)
  | [] => some []
  | '\n' :: rest => some ('\n' :: rest)
  | '\r' :: '\n' :: rest => some ('\r' :: '\n' :: rest)
  | c :: rest => if isControl c then none else skipComment rest

/-- What follows the end of a line on which nothing but a comment is left. -/
def endLine (cs : List Char) : Option (List Char) := do
  let rest ← match skipGaps cs with
    | '#' :: rest => skipComment rest
    | rest => some rest
  if rest.isEmpty then some [] else afterNewline? rest

/-! ## Strings -/

/-- The value of a hexadecimal digit. -/
def hexValue? (c : Char) : Option Nat :=
  if c.isDigit then some (c.toNat - '0'.toNat)
  else if 'a' ≤ c ∧ c ≤ 'f' then some (c.toNat - 'a'.toNat + 10)
  else if 'A' ≤ c ∧ c ≤ 'F' then some (c.toNat - 'A'.toNat + 10)
  else none

/-- The character whose code point hexadecimal digits write. -/
def hexChar? (digits : List Char) : Option Char := do
  let values ← digits.mapM hexValue?
  let n := values.foldl (fun n d => n * 16 + d) 0
  if n.isValidChar then some (Char.ofNat n) else none

/-- The character that a letter behind a backslash stands for. -/
def escaped? : Char → Option Char
  | 'b' => some '\x08'
  | 'e' => some '\x1b'
  | 't' => some '\t'
  | 'n' => some '\n'
  | 'f' => some '\x0c'
  | 'r' => some '\r'
  | '"' => some '"'
  | '\\' => some '\\'
  | _ => none

/-- The rest of a text between quotation marks on one line. -/
def basicString : List Char → Option (List Char × List Char)
  | [] => none
  | '"' :: rest => some ([], rest)
  | '\\' :: 'x' :: a :: b :: rest => do
    let value ← hexChar? [a, b]
    let (text, rest) ← basicString rest
    return (value :: text, rest)
  | '\\' :: 'u' :: a :: b :: c :: d :: rest => do
    let value ← hexChar? [a, b, c, d]
    let (text, rest) ← basicString rest
    return (value :: text, rest)
  | '\\' :: 'U' :: a :: b :: c :: d :: e :: f :: g :: h :: rest => do
    let value ← hexChar? [a, b, c, d, e, f, g, h]
    let (text, rest) ← basicString rest
    return (value :: text, rest)
  | '\\' :: c :: rest => do
    let value ← escaped? c
    let (text, rest) ← basicString rest
    return (value :: text, rest)
  | c :: rest =>
    if isControl c then none
    else do
      let (text, rest) ← basicString rest
      return (c :: text, rest)

/-- Whether nothing but spaces and tabs is left on a line. -/
def isLineDone (cs : List Char) : Bool := (afterNewline? (skipGaps cs)).isSome

/-- The rest of a text between threefold quotation marks. One or two marks may stand in front of
the closing ones. Behind a backslash at the end of a line, blanks and line ends are dropped up to
the next character, which is what `joining` says. -/
def longBasicString : (joining : Bool) → List Char → Option (List Char × List Char)
  | _, [] => none
  | _, '"' :: '"' :: '"' :: '"' :: '"' :: rest => some (['"', '"'], rest)
  | _, '"' :: '"' :: '"' :: '"' :: rest => some (['"'], rest)
  | _, '"' :: '"' :: '"' :: rest => some ([], rest)
  | joining, '\r' :: '\n' :: rest =>
    if joining then longBasicString true rest
    else do
      let (text, rest) ← longBasicString false rest
      return ('\r' :: '\n' :: text, rest)
  | _, '\\' :: 'x' :: a :: b :: rest => do
    let value ← hexChar? [a, b]
    let (text, rest) ← longBasicString false rest
    return (value :: text, rest)
  | _, '\\' :: 'u' :: a :: b :: c :: d :: rest => do
    let value ← hexChar? [a, b, c, d]
    let (text, rest) ← longBasicString false rest
    return (value :: text, rest)
  | _, '\\' :: 'U' :: a :: b :: c :: d :: e :: f :: g :: h :: rest => do
    let value ← hexChar? [a, b, c, d, e, f, g, h]
    let (text, rest) ← longBasicString false rest
    return (value :: text, rest)
  | _, '\\' :: c :: rest =>
    if isLineDone (c :: rest) then longBasicString true (c :: rest)
    else do
      let value ← escaped? c
      let (text, rest) ← longBasicString false rest
      return (value :: text, rest)
  | joining, c :: rest =>
    if joining && (isGap c || c == '\n') then longBasicString true rest
    else if isControl c && c != '\n' then none
    else do
      let (text, rest) ← longBasicString false rest
      return (c :: text, rest)

/-- The rest of a text between apostrophes on one line. -/
def literalString : List Char → Option (List Char × List Char)
  | [] => none
  | '\x27' :: rest => some ([], rest)
  | c :: rest =>
    if isControl c then none
    else do
      let (text, rest) ← literalString rest
      return (c :: text, rest)

/-- The rest of a text between threefold apostrophes. -/
def longLiteralString : List Char → Option (List Char × List Char)
  | [] => none
  | '\x27' :: '\x27' :: '\x27' :: '\x27' :: '\x27' :: rest => some (['\x27', '\x27'], rest)
  | '\x27' :: '\x27' :: '\x27' :: '\x27' :: rest => some (['\x27'], rest)
  | '\x27' :: '\x27' :: '\x27' :: rest => some ([], rest)
  | '\r' :: '\n' :: rest => do
    let (text, rest) ← longLiteralString rest
    return ('\r' :: '\n' :: text, rest)
  | c :: rest =>
    if isControl c && c != '\n' then none
    else do
      let (text, rest) ← longLiteralString rest
      return (c :: text, rest)

/-- Drops a line end that follows the opening marks of a long string. -/
def skipFirstNewline (cs : List Char) : List Char := (afterNewline? cs).getD cs

/-! ## Keys -/

/-- A character of a key without quotation marks. -/
def isBareKeyChar (c : Char) : Bool := c.isAlphanum || c == '_' || c == '-'

/-- One part of a key. -/
def keyPart : List Char → Option (String × List Char)
  | '"' :: rest => (basicString rest).map fun (text, rest) => (String.ofList text, rest)
  | '\x27' :: rest => (literalString rest).map fun (text, rest) => (String.ofList text, rest)
  | cs =>
    let bare := cs.takeWhile isBareKeyChar
    if bare.isEmpty then none else some (String.ofList bare, cs.dropWhile isBareKeyChar)

/-- How many parts a key may have. -/
def maxKeyParts : Nat := 80

/-- A key of at most `room` parts with dots between them. The parts in front of the last one come
first. -/
def keyPath : (room : Nat) → List Char → Option ((List String × String) × List Char)
  | 0, _ => none
  | room + 1, cs => do
    let (part, rest) ← keyPart (skipGaps cs)
    match skipGaps rest with
    | '.' :: rest => do
      let ((path, key), rest) ← keyPath room rest
      return ((part :: path, key), rest)
    | rest => return (([], part), rest)

/-- A key with dots between its parts. -/
def key (cs : List Char) : Option ((List String × String) × List Char) := keyPath maxKeyParts cs

end StoryCheck.Toml
