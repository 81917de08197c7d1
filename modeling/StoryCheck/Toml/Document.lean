import StoryCheck.Toml.Lexical
import StoryCheck.Toml.Scalar
/-!
# TOML texts

A text is a sequence of lines: headers of tables and keys with their values. A key is never given a
value twice and a table never a second header. Arrays and tables in braces may be nested, to a
limited depth, and both may go over several lines.

With the modules it rests on, this one stands in for a general TOML library. It has as much of the
format as a manifest can show: which texts are accepted and what values come of them. What exactly is
wrong with a text that is not accepted is left out.
-/

namespace StoryCheck.Toml

/-- A reader of a part of the text. -/
abbrev Reader (α : Type) := List Char → Option (α × List Char)

/-! ## Values -/

/-- How deep arrays and tables in braces may be nested. -/
def maxDepth : Nat := 80

/-- The items of an array up to the closing bracket. There are no more than characters. -/
def arrayItems (item : Reader Value) : (room : Nat) → Reader (List Value)
  | 0, _ => none
  | room + 1, cs => do
    match ← skipLines false cs with
    | ']' :: rest => return ([], rest)
    | cs =>
      let (first, rest) ← item cs
      match ← skipLines false rest with
      | ']' :: rest => return ([first], rest)
      | ',' :: rest =>
        let (items, rest) ← arrayItems item room rest
        return (first :: items, rest)
      | _ => none

/-- A key with its value; `skip` drops what may stand around the sign between them. -/
def keyValue (skip : List Char → Option (List Char)) (item : Reader Value) :
    Reader ((List String × String) × Value) := fun cs => do
  let (name, rest) ← key cs
  match ← skip rest with
  | '=' :: rest =>
    let (value, rest) ← item (← skip rest)
    return ((name, value), rest)
  | _ => none

/-- The entries of a table in braces up to the closing brace, added to those in front of them. There
are no more than characters. -/
def inlineEntries (item : Reader Value) : (room : Nat) → Table → Reader Table
  | 0, _, _ => none
  | room + 1, table, cs => do
    match ← skipLines false cs with
    | '\x7d' :: rest => return (table, rest)
    | cs =>
      let (((path, name), value), rest) ← keyValue (skipLines false) item cs
      let table ← insert path name value table
      match ← skipLines false rest with
      | '\x7d' :: rest => return (table, rest)
      | ',' :: rest => inlineEntries item room table rest
      | _ => none

/-- A table in braces behind the opening one. -/
def inlineTable (item : Reader Value) : Reader Value := fun cs => do
  let ((_, entries), rest) ← inlineEntries item (cs.length + 1) (.closed, []) cs
  return (.table .closed entries, rest)

/-- A string. -/
def stringValue (read : Reader (List Char)) : Reader Value := fun cs =>
  (read cs).map fun (text, rest) => (.string (String.ofList text), rest)

/-- A value with at most `depth` arrays and tables in braces around its innermost parts. -/
def value : (depth : Nat) → Reader Value
  | depth, cs =>
    match cs with
    | '"' :: '"' :: '"' :: rest =>
      stringValue (longBasicString false) (skipFirstNewline rest)
    | '"' :: rest => stringValue basicString rest
    | '\x27' :: '\x27' :: '\x27' :: rest =>
      stringValue longLiteralString (skipFirstNewline rest)
    | '\x27' :: rest => stringValue literalString rest
    | '[' :: rest =>
      match depth with
      | 0 => none
      | depth + 1 =>
        (arrayItems (value depth) (rest.length + 1) rest).map fun (items, rest) =>
          (.array items, rest)
    | '\x7b' :: rest =>
      match depth with
      | 0 => none
      | depth + 1 => inlineTable (value depth) rest
    | cs => scalar cs

/-! ## Lines -/

/-- A text as far as it was read: its table, and the header that the next keys belong to. -/
structure Document where
  table : Table := (.headed, [])
  header : List String := []
deriving Repr, Inhabited

namespace Document

/-- Puts a key with its value under the current header. -/
def add (document : Document) (path : List String) (name : String) (value : Value) :
    Option Document :=
  (changeAt false (insert path name value) document.header document.table).map fun table =>
    { document with table }

/-- Goes on under another header. -/
def under (document : Document) (path : List String) (name : String)
    (change : Table → Option Table) : Option Document :=
  (changeAt false change path document.table).map fun table =>
    { table, header := path ++ [name] }

/-- Reads a header behind its opening bracket or brackets. -/
def readHeader (document : Document) (isItem : Bool) : Reader Document := fun cs => do
  let ((path, name), rest) ← key cs
  let change := if isItem then openItem name else openTable name
  let document ← document.under path name change
  match isItem, rest with
  | true, ']' :: ']' :: rest => return (document, rest)
  | false, ']' :: rest => return (document, rest)
  | _, _ => none

/-- Reads a line that is not blank. -/
def readLine (document : Document) : Reader Document
  | '[' :: '[' :: rest => document.readHeader true rest
  | '[' :: rest => document.readHeader false rest
  | cs => do
    let (((path, name), value), rest) ← keyValue (some ∘ skipGaps) (value maxDepth) cs
    return (← document.add path name value, rest)

/-- Reads the lines of a text, of which there are no more than characters. -/
def readLines : (room : Nat) → Document → List Char → Option Document
  | 0, _, _ => none
  | room + 1, document, cs => do
    match ← skipLines false cs with
    | [] => return document
    | cs =>
      let (document, rest) ← document.readLine cs
      readLines room document (← endLine rest)

end Document

/-- Drops the mark of the byte order at the start of a text. -/
def skipByteOrderMark : List Char → List Char
  | '\uFEFF' :: rest => rest
  | cs => cs

/-- The entries of a TOML text, if it is well-formed. -/
def read? (text : String) : Option Entries :=
  let cs := skipByteOrderMark text.toList
  (Document.readLines (cs.length + 1) {} cs).map fun document => document.table.2

end StoryCheck.Toml
