import StoryCheck.Text.Guid
/-!
# JSON texts

Reading of strict JSON: one value, no trailing commas, no comments. Numbers are checked and not
evaluated. A string may hold an escape for half of a surrogate pair, which is no character; such a
string is well-formed but has no text.

This stands in for a general JSON library, as far as a list of objects can show what it does: which
texts are accepted and which members they have, but not what is wrong with the others.
-/

namespace StoryCheck.Json

/-- A value. Objects keep all their members in order, repeated names included. -/
inductive Value where
  | null
  | boolean (b : Bool)
  | number
  | string (text : Option String)
  | array (items : List Value)
  | object (members : List (Option String × Value))
deriving Repr, Inhabited

/-- A reader of a part of the text: what it found with the rest, nothing if the text is not
well-formed there. -/
abbrev Reader (α : Type) := List Char → Option (α × List Char)

/-- A character that may stand between the parts. -/
def isSpace (c : Char) : Bool := c == ' ' || c == '\n' || c == '\t' || c == '\r'

/-- Drops what may stand between the parts. -/
def skipSpace (cs : List Char) : List Char := cs.dropWhile isSpace

/-! ## Strings -/

/-- The value of a hexadecimal digit. -/
def hexValue? (c : Char) : Option Nat :=
  if !Guid.isHexDigit c then none
  else if c.isDigit then some (c.toNat - '0'.toNat)
  else some (c.toLower.toNat - 'a'.toNat + 10)

/-- The number that four hexadecimal digits write. -/
def hexUnit? (a b c d : Char) : Option Nat := do
  return (((← hexValue? a) * 16 + (← hexValue? b)) * 16 + (← hexValue? c)) * 16 + (← hexValue? d)

/-- The character that a letter behind a backslash stands for. -/
def escaped? : Char → Option Char
  | '"' => some '"'
  | '\\' => some '\\'
  | '/' => some '/'
  | 'b' => some '\x08'
  | 'f' => some '\x0c'
  | 'n' => some '\n'
  | 'r' => some '\r'
  | 't' => some '\t'
  | _ => none

/-- A string as numbers: its characters and the units that escapes write. -/
inductive Unit16 where
  | char (c : Char)
  | unit (n : Nat)
deriving DecidableEq, Repr, Inhabited

/-- The rest of a string up to the closing mark. -/
def stringUnits : Reader (List Unit16)
  | [] => none
  | '"' :: rest => some ([], rest)
  | '\\' :: 'u' :: a :: b :: c :: d :: rest => do
    let n ← hexUnit? a b c d
    let (units, rest) ← stringUnits rest
    return (.unit n :: units, rest)
  | '\\' :: c :: rest => do
    let value ← escaped? c
    let (units, rest) ← stringUnits rest
    return (.char value :: units, rest)
  | c :: rest =>
    if c.toNat < 0x20 then none
    else do
      let (units, rest) ← stringUnits rest
      return (.char c :: units, rest)

/-- Whether a unit is the first half of a pair. -/
def isHighHalf (n : Nat) : Bool := 0xD800 ≤ n && n < 0xDC00

/-- Whether a unit is the second half of a pair. -/
def isLowHalf (n : Nat) : Bool := 0xDC00 ≤ n && n < 0xE000

/-- The characters of a string: two halves in a row make one character, and a half alone makes
none. -/
def joinUnits? : List Unit16 → Option (List Char)
  | [] => some []
  | .char c :: rest => (joinUnits? rest).map (c :: ·)
  | .unit high :: .unit low :: rest =>
    if isHighHalf high then
      if isLowHalf low then
        (joinUnits? rest).map (Char.ofNat (0x10000 + (high - 0xD800) * 0x400 + (low - 0xDC00)) :: ·)
      else none
    else if isLowHalf high then none
    else (joinUnits? (.unit low :: rest)).map (Char.ofNat high :: ·)
  | .unit n :: rest =>
    if isHighHalf n || isLowHalf n then none else (joinUnits? rest).map (Char.ofNat n :: ·)

/-- A string behind its opening mark. -/
def stringText : Reader (Option String) := fun cs =>
  (stringUnits cs).map fun (units, rest) => ((joinUnits? units).map String.ofList, rest)

/-! ## Numbers -/

/-- What follows one or more digits. -/
def afterDigits? : List Char → Option (List Char)
  | c :: rest => if c.isDigit then some (rest.dropWhile Char.isDigit) else none
  | [] => none

/-- What follows the digits in front of a point. Only zero itself starts with zero. -/
def afterWhole? : List Char → Option (List Char)
  | '0' :: rest => if (rest.head?).any Char.isDigit then none else some rest
  | cs => afterDigits? cs

/-- What follows a point with digits, if there is one. -/
def afterFraction? : List Char → Option (List Char)
  | '.' :: rest => afterDigits? rest
  | cs => some cs

/-- What follows an exponent, if there is one. -/
def afterExponent? : List Char → Option (List Char)
  | c :: rest =>
    if c = 'e' ∨ c = 'E' then
      match rest with
      | '+' :: rest | '-' :: rest => afterDigits? rest
      | rest => afterDigits? rest
    else
      some (c :: rest)
  | [] => some []

/-- What follows a number. -/
def afterNumber? (cs : List Char) : Option (List Char) := do
  let body := match cs with
    | '-' :: rest => rest
    | cs => cs
  afterExponent? (← afterFraction? (← afterWhole? body))

/-! ## Values -/

/-- The items of an array up to the closing bracket, the first of which is there. There are no
more than characters. -/
def arrayItems (item : Reader Value) : (room : Nat) → Reader (List Value)
  | 0, _ => none
  | room + 1, cs => do
    let (first, rest) ← item cs
    match skipSpace rest with
    | ']' :: rest => return ([first], rest)
    | ',' :: rest =>
      let (items, rest) ← arrayItems item room rest
      return (first :: items, rest)
    | _ => none

/-- A member of an object. -/
def member (item : Reader Value) : Reader (Option String × Value) := fun cs =>
  match skipSpace cs with
  | '"' :: rest => do
    let (name, rest) ← stringText rest
    match skipSpace rest with
    | ':' :: rest =>
      let (value, rest) ← item rest
      return ((name, value), rest)
    | _ => none
  | _ => none

/-- The members of an object up to the closing brace, the first of which is there. There are no
more than characters. -/
def objectMembers (item : Reader Value) : (room : Nat) → Reader (List (Option String × Value))
  | 0, _ => none
  | room + 1, cs => do
    let (first, rest) ← member item cs
    match skipSpace rest with
    | '\x7d' :: rest => return ([first], rest)
    | ',' :: rest =>
      let (members, rest) ← objectMembers item room rest
      return (first :: members, rest)
    | _ => none

/-- A value in a text whose arrays and objects are nested less deep than `room`. -/
def value : (room : Nat) → Reader Value
  | 0, _ => none
  | room + 1, cs =>
    match skipSpace cs with
    | 'n' :: 'u' :: 'l' :: 'l' :: rest => some (.null, rest)
    | 't' :: 'r' :: 'u' :: 'e' :: rest => some (.boolean true, rest)
    | 'f' :: 'a' :: 'l' :: 's' :: 'e' :: rest => some (.boolean false, rest)
    | '"' :: rest => (stringText rest).map fun (text, rest) => (.string text, rest)
    | '[' :: rest =>
      match skipSpace rest with
      | ']' :: rest => some (.array [], rest)
      | rest =>
        (arrayItems (value room) rest.length rest).map fun (items, rest) => (.array items, rest)
    | '\x7b' :: rest =>
      match skipSpace rest with
      | '\x7d' :: rest => some (.object [], rest)
      | rest =>
        (objectMembers (value room) rest.length rest).map fun (members, rest) =>
          (.object members, rest)
    | cs => (afterNumber? cs).map fun rest => (.number, rest)

/-- The value that a text holds, if it is well-formed. -/
def read? (text : String) : Option Value := do
  let cs := text.toList
  let (result, rest) ← value (cs.length + 1) cs
  if (skipSpace rest).isEmpty then return result else none

end StoryCheck.Json
