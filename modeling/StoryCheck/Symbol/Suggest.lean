import StoryCheck.Symbol.Table
/-!
# Suggestions

For a call of a symbol that nothing defines, the symbol that was probably meant: the same name with
another number of parameters, or else a name that is close.
-/

namespace StoryCheck

/-- Number of insertions, deletions and replacements of a character that lead from one name to the
other, row by row: `row` holds the distances of the characters of `as` so far to every prefix of
the other name. -/
def editDistance (as bs : List Char) : Nat :=
  (as.foldl (nextRow bs) (List.range (bs.length + 1))).getLastD 0
where
  /-- The rest of a row: `left` is the entry before it, `row` the row above from that entry on. -/
  fillRow (a : Char) (left : Nat) : (bs : List Char) → (row : List Nat) → List Nat
    | b :: bs, diagonal :: above :: row =>
      let entry := min (min (diagonal + if a = b then 0 else 1) (above + 1)) (left + 1)
      entry :: fillRow a entry bs (above :: row)
    | _, _ => []
  /-- The row below a row. -/
  nextRow (bs : List Char) (row : List Nat) (a : Char) : List Nat :=
    let first := row.headD 0 + 1
    first :: fillRow a first bs row

/-- How far two numbers are apart. -/
def distance (m n : Nat) : Nat := max m n - min m n

namespace SymbolTable

/-- The largest distance of a name that is still suggested. -/
def maxSuggestionDistance : Nat := 4

/-- The least of a list, the first of several. -/
def least? {α : Type} (order : α → α → Ordering) (xs : List α) : Option α :=
  xs.foldl
    (fun best x =>
      match best with
      | none => some x
      | some y => if order x y = .lt then some x else some y)
    none

/-- The symbol of the same name whose number of parameters is closest. -/
def otherArity? (table : SymbolTable) (key : SymbolKey) : Option SymbolKey :=
  let candidates := table.symbols.filter fun s =>
    s.kind != .unknown && s.name == key.name && s.arity != key.arity
  let order (a b : StorySymbol) : Ordering :=
    (compare (distance a.arity key.arity) (distance b.arity key.arity)).then
      (compare a.arity b.arity)
  (least? order candidates).map (·.key)

/-- The symbol with as many parameters whose name is closest. -/
def nearName? (table : SymbolTable) (key : SymbolKey) : Option SymbolKey :=
  let length := key.name.length
  let candidates := table.symbols.filter fun s =>
    s.kind != .unknown && s.arity == key.arity && s.name != key.name
      && distance s.name.length length ≤ maxSuggestionDistance
  let measured := candidates.map fun s => (editDistance key.name.toList s.name.toList, s.key)
  let near := measured.filter fun (d, _) => d ≤ maxSuggestionDistance
  let order (a b : Nat × SymbolKey) : Ordering := (compare a.1 b.1).then (a.2.order b.2)
  (least? order near).map (·.2)

/-- The symbol that a call of `key` probably meant. -/
def suggest? (table : SymbolTable) (key : SymbolKey) : Option SymbolKey :=
  (table.otherArity? key).or (table.nearName? key)

end SymbolTable

end StoryCheck
