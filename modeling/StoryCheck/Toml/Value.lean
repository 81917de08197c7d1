/-!
# TOML values

What a TOML text holds. Tables remember how they came about, because that decides what may be added
to them later in the text.
-/

namespace StoryCheck.Toml

/-- How a table came about. -/
inductive TableKind where
  /-- Under a header of its own, or the whole text. -/
  | headed
  /-- By being a part of the path in a header. -/
  | implied
  /-- By being a part of a key with dots. -/
  | dotted
  /-- In braces; nothing can be added. -/
  | closed
deriving DecidableEq, Repr, Inhabited

/-- A value. Numbers with a point and dates are not told apart any further. -/
inductive Value where
  | string (text : String)
  | integer (n : Int)
  | real
  | boolean (b : Bool)
  | moment
  /-- An array in brackets; nothing can be added. -/
  | array (items : List Value)
  /-- Tables under headers in double brackets. -/
  | tables (items : List Value)
  | table (kind : TableKind) (entries : List (String × Value))
deriving Repr, Inhabited

/-- The entries of a table in the order of the text. A key stands in it once. -/
abbrev Entries := List (String × Value)

namespace Entries

/-- The value of a key. -/
def get? (entries : Entries) (key : String) : Option Value :=
  (entries.find? fun (k, _) => k == key).map (·.2)

/-- Puts a value in place of that of a key, or at the end. -/
def put (entries : Entries) (key : String) (value : Value) : Entries :=
  if (entries.get? key).isSome then
    entries.map fun (k, v) => if k = key then (k, value) else (k, v)
  else
    entries ++ [(key, value)]

end Entries

namespace Value

/-- The items of an array of either form. -/
def items? : Value → Option (List Value)
  | array items | tables items => some items
  | _ => none

/-- The text of a string. -/
def string? : Value → Option String
  | string text => some text
  | _ => none

/-- The number that an integer is, if it is a size that fits 64 bits. -/
def size? : Value → Option Nat
  | integer n => if 0 ≤ n ∧ n.toNat < Nat.pow 2 64 then some n.toNat else none
  | _ => none

/-- The texts of an array of strings. -/
def strings? (value : Value) : Option (List String) :=
  value.items?.bind fun items => items.mapM string?

/-- The values of some fields, from a table by key and from an array by place. -/
def fields? (names : List String) : Value → Option (List Value)
  | table _ entries => names.mapM (Entries.get? entries)
  | value =>
    value.items?.bind fun items =>
      if names.length ≤ items.length then some (items.take names.length) else none

end Value

/-! ## Adding to tables -/

/-- A table with how it came about. -/
abbrev Table := TableKind × Entries

/-- Whether a part of a path that is a table of some kind may be gone through. A key with dots
cannot reach into a table that has a header of its own. -/
def mayEnter (viaKey : Bool) : TableKind → Bool
  | .headed => !viaKey
  | .implied | .dotted => true
  | .closed => false

/-- Changes the table at the end of a path. Tables that are missing on the way come about by being
a part of it. -/
def changeAt (viaKey : Bool) (change : Table → Option Table) :
    (path : List String) → Table → Option Table
  | [], table => change table
  | key :: path, (kind, entries) =>
    match entries.get? key with
    | none => do
      let (k, es) ← changeAt viaKey change path (if viaKey then .dotted else .implied, [])
      return (kind, entries.put key (.table k es))
    | some (.table k es) =>
      if mayEnter viaKey k then do
        let (k, es) ← changeAt viaKey change path (k, es)
        return (kind, entries.put key (.table k es))
      else
        none
    | some (.tables items) =>
      match items.getLast? with
      | some (.table k es) => do
        let (k, es) ← changeAt viaKey change path (k, es)
        return (kind, entries.put key (.tables (items.dropLast ++ [.table k es])))
      | _ => none
    | some _ => none

/-- Adds the value of a new key to a table. A key with dots ends in a table that only such keys
have made, and a key without dots does not. -/
def addKey (hasDots : Bool) (key : String) (value : Value) (table : Table) : Option Table :=
  let (kind, entries) := table
  if (kind == .dotted) != hasDots || (entries.get? key).isSome then none
  else some (kind, entries ++ [(key, value)])

/-- Adds the value of a key with dots between the parts in front of it. -/
def insert (path : List String) (key : String) (value : Value) : Table → Option Table :=
  changeAt true (addKey (!path.isEmpty) key value) path

/-- Opens the table of a header. It may have come about in the path of another header. -/
def openTable (key : String) (table : Table) : Option Table :=
  let (kind, entries) := table
  match entries.get? key with
  | none => some (kind, entries ++ [(key, .table .headed [])])
  | some (.table .implied es) => some (kind, entries.put key (.table .headed es))
  | some _ => none

/-- Opens one more table of a header in double brackets. -/
def openItem (key : String) (table : Table) : Option Table :=
  let (kind, entries) := table
  match entries.get? key with
  | none => some (kind, entries ++ [(key, .tables [.table .headed []])])
  | some (.tables items) =>
    some (kind, entries.put key (.tables (items ++ [.table .headed []])))
  | some _ => none

end StoryCheck.Toml
