import Mathlib.Data.List.Nodup
import StoryCheck.Symbol.Resolve

/-!
# Looking up symbols

Every change to a symbol table goes through `map` and `modify`, and none of the functions they are
given touches the key of a symbol. So a lookup after a change is the lookup before it with the
change applied, and nothing below has to walk the list of symbols again.

* **`evidence`** — a symbol without the part that resolution writes. Two symbols of the same
  evidence have the same candidates, the same stated types and the same stated directions.
* **`get?_map`, `get?_modify`** — lookups commute with changes.
-/

namespace StoryCheck

/-! ## What goals say about a symbol

Resolution writes four fields of a symbol: its parameters, the place of the definition it adopted,
whether it is dead and whether it is flagged. The rest is the work of headers and goals. -/

namespace StorySymbol

/-- The symbol without what resolution writes. -/
def evidence (s : StorySymbol) : StorySymbol :=
  { s with parameters := [], canonical := none, isDead := false, needsUpdate := false }

/-- Adopting a definition leaves the key alone, so a symbol that was resolved is found where it was. -/
@[simp] theorem key_adopt (s : StorySymbol) (index : Nat) (d : SymbolDefinition)
    (types : List (ValueType × Option ParameterRef)) : (s.adopt index d types).key = s.key := rfl

/-- Falling back on known types leaves the key alone. -/
@[simp] theorem key_fallBack (s : StorySymbol) : s.fallBack.key = s.key := rfl

/-- A dead symbol keeps its key; it is still there to be looked up. -/
@[simp] theorem key_markDead (s : StorySymbol) : s.markDead.key = s.key := rfl

/-- A symbol that waits for its definitions keeps its key. -/
@[simp] theorem key_waitForDefinition (s : StorySymbol) : s.waitForDefinition.key = s.key := rfl

/-- Flagging a symbol for the next update leaves the key alone. -/
@[simp] theorem key_invalidate (s : StorySymbol) : s.invalidate.key = s.key := by
  -- System symbols are never flagged, so there are two cases.
  unfold invalidate
  split <;> rfl

/-- The kind of a symbol is worked out anew from its definitions, its key is not. -/
@[simp] theorem key_refreshKind (s : StorySymbol) : s.refreshKind.key = s.key := by
  unfold refreshKind
  split <;> rfl

/-- What goals say about a symbol is the same after it has adopted one of their definitions. -/
@[simp] theorem evidence_adopt (s : StorySymbol) (index : Nat) (d : SymbolDefinition)
    (types : List (ValueType × Option ParameterRef)) :
    (s.adopt index d types).evidence = s.evidence := rfl

/-- What goals say about a symbol is the same after it has fallen back. -/
@[simp] theorem evidence_fallBack (s : StorySymbol) : s.fallBack.evidence = s.evidence := rfl

/-- Giving a symbol up does not change what goals say about it. -/
@[simp] theorem evidence_markDead (s : StorySymbol) : s.markDead.evidence = s.evidence := rfl

/-- Waiting for definitions does not change what goals say about a symbol. -/
@[simp] theorem evidence_waitForDefinition (s : StorySymbol) :
    s.waitForDefinition.evidence = s.evidence := rfl

/-- Flagging a symbol does not change what goals say about it. With the four lemmas above this says
that no walk changes what a later walk starts from. -/
@[simp] theorem evidence_invalidate (s : StorySymbol) : s.invalidate.evidence = s.evidence := by
  unfold invalidate
  split <;> rfl

variable {s t : StorySymbol}

/-- The key is part of what goals say. -/
theorem key_eq_of_evidence (h : s.evidence = t.evidence) : s.key = t.key := by
  show s.evidence.key = t.evidence.key
  rw [h]

/-- Whether the header declared the symbol is part of it, too. -/
theorem isSystem_eq_of_evidence (h : s.evidence = t.evidence) : s.isSystem = t.isSystem := by
  show s.evidence.isSystem = t.evidence.isSystem
  rw [h]

/-- So are the definitions, in their order. -/
theorem definitions_eq_of_evidence (h : s.evidence = t.evidence) :
    s.definitions = t.definitions := by
  show s.evidence.definitions = t.evidence.definitions
  rw [h]

/-- Whether a symbol is a database is told by its name, and so by its key. -/
theorem isDatabase_eq_of_evidence (h : s.evidence = t.evidence) :
    s.isDatabase = t.isDatabase := by
  show s.evidence.isDatabase = t.evidence.isDatabase
  rw [h]

/-- What a symbol may adopt is read off its definitions and its name. A walk that comes back to a
symbol finds the same candidates, whatever has been resolved in between. -/
theorem candidates_eq_of_evidence (h : s.evidence = t.evidence) (weights : Weights) :
    s.candidates weights = t.candidates weights := by
  show s.evidence.candidates weights = t.evidence.candidates weights
  rw [h]

/-- The candidates are the definitions, each with its place, except that a database has only those
that write to it. -/
theorem mem_candidates {weights : Weights} {index : Nat} {d : SymbolDefinition} :
    (index, d) ∈ s.candidates weights
      ↔ s.definitions[index]? = some d ∧ (s.isDatabase = true → d.access = .write) := by
  simp only [candidates, List.mem_mergeSort, List.mem_filter, List.mem_map, Prod.exists,
    Prod.mk.injEq, List.mem_zipIdx_iff_getElem?]
  constructor
  -- Sorting by weight moves candidates and loses none.
  · rintro ⟨⟨d', index', hget, rfl, rfl⟩, heligible⟩
    refine ⟨hget, fun hdatabase => ?_⟩
    simpa [hdatabase] using heligible
  · rintro ⟨hget, heligible⟩
    refine ⟨⟨d, index, hget, rfl, rfl⟩, ?_⟩
    cases hdatabase : s.isDatabase with
    | true => simp [heligible hdatabase]
    | false => rfl

end StorySymbol

namespace SymbolDefinition

/-- A definition refers to the symbols that one of its parameters takes its type from. -/
theorem mem_references {d : SymbolDefinition} {key : SymbolKey} :
    key ∈ d.references ↔ ∃ p ∈ d.parameters, ∃ ref, p.source = .reference ref ∧ ref.symbol = key := by
  simp only [references, List.mem_filterMap]
  constructor
  · rintro ⟨p, hp, hsource⟩
    cases hp' : p.source with
    | explicit type => simp [hp'] at hsource
    | unknown => simp [hp'] at hsource
    | reference ref =>
      simp only [hp', Option.some.injEq] at hsource
      exact ⟨p, hp, ref, hp', hsource⟩
  · rintro ⟨p, hp, ref, hsource, rfl⟩
    exact ⟨p, hp, by rw [hsource]⟩

/-- A definition that is not partial has something to say about each of its parameters. -/
theorem source_ne_unknown {d : SymbolDefinition} {p : DefinitionParameter}
    (hpartial : d.isPartial = false) (hp : p ∈ d.parameters) : p.source ≠ .unknown := by
  intro hsource
  have hany : d.isPartial = true := List.any_eq_true.2 ⟨p, hp, by simp [hsource]⟩
  exact absurd hany (by simp [hpartial])

end SymbolDefinition

/-! ## Lookups and changes

All of these say the same about one way to change a table: the keys stay, in their order, and what
is found under a key is what was found there before, with the change. They are what is meant by "a
table is a map". -/

namespace SymbolTable

variable {table : SymbolTable} {key other : SymbolKey} {s : StorySymbol}

/-- A symbol is found under its own key. -/
theorem key_of_get? (hget : table.get? key = some s) : s.key = key := by
  simpa using List.find?_some hget

/-- What is found is in the table. -/
theorem mem_symbols_of_get? (hget : table.get? key = some s) : s ∈ table.symbols :=
  List.mem_of_find?_eq_some hget

/-- A lookup succeeds for the keys of the table and for no others. -/
theorem get?_isSome_iff : (table.get? key).isSome ↔ key ∈ table.keys := by
  simp [get?, keys]

/-- The form in which this is used most: what was found has its key in the table. -/
theorem mem_keys_of_get? (hget : table.get? key = some s) : key ∈ table.keys :=
  get?_isSome_iff.1 (by simp [hget])

/-- There is nothing under a key that is not in the table. -/
theorem get?_eq_none_iff : table.get? key = none ↔ key ∉ table.keys := by
  rw [← get?_isSome_iff, Option.not_isSome_iff_eq_none]

/-- A symbol of the table is what its key is looked up as, up to symbols of the same key. -/
theorem exists_get?_of_mem (hmem : s ∈ table.symbols) : ∃ t, table.get? s.key = some t := by
  have hkey : s.key ∈ table.keys := List.mem_map.2 ⟨s, hmem, rfl⟩
  exact Option.isSome_iff_exists.1 (get?_isSome_iff.2 hkey)

/-- In a table that holds no key twice, a symbol is what its key is looked up as. -/
theorem get?_of_mem (hnodup : table.keys.Nodup) (hmem : s ∈ table.symbols) :
    table.get? s.key = some s := by
  obtain ⟨t, hget⟩ := exists_get?_of_mem hmem
  rw [hget, List.inj_on_of_nodup_map hnodup (mem_symbols_of_get? hget) hmem (key_of_get? hget)]

/-- A change of all symbols that leaves their keys alone leaves the list of keys alone. -/
theorem keys_map {f : StorySymbol → StorySymbol} (hkey : ∀ s, (f s).key = s.key) :
    (table.map f).keys = table.keys := by
  simp [keys, map, hkey]

/-- A lookup after a change of all symbols is the change of what was found before. -/
theorem get?_map {f : StorySymbol → StorySymbol} (hkey : ∀ s, (f s).key = s.key) :
    (table.map f).get? key = (table.get? key).map f := by
  simp only [get?, map, List.find?_map]
  congr 2
  funext s
  simp [hkey]

/-- A change of one symbol that leaves its key alone leaves the list of keys alone. -/
theorem keys_modify {f : StorySymbol → StorySymbol} (hkey : ∀ s, (f s).key = s.key) :
    (table.modify key f).keys = table.keys := by
  refine keys_map fun s => ?_
  split
  · exact hkey s
  · rfl

/-- A change of one symbol shows under its key and nowhere else. The next two lemmas are its two
cases. -/
theorem get?_modify {f : StorySymbol → StorySymbol} (hkey : ∀ s, (f s).key = s.key) :
    (table.modify key f).get? other
      = if other = key then (table.get? key).map f else table.get? other := by
  rw [modify, get?_map (by intro s; split <;> simp [hkey])]
  cases hget : table.get? other with
  | none => split <;> simp_all
  | some s =>
    have hs : s.key = other := key_of_get? hget
    by_cases h : other = key
    · subst h
      simp [hget, hs]
    · simp [hs, h]

/-- Under the key that was changed the change is found. -/
theorem get?_modify_self {f : StorySymbol → StorySymbol} (hkey : ∀ s, (f s).key = s.key) :
    (table.modify key f).get? key = (table.get? key).map f := by
  rw [get?_modify hkey, if_pos rfl]

/-- Under every other key all is as it was. -/
theorem get?_modify_of_ne {f : StorySymbol → StorySymbol} (hkey : ∀ s, (f s).key = s.key)
    (hne : other ≠ key) : (table.modify key f).get? other = table.get? other := by
  rw [get?_modify hkey, if_neg hne]

/-- There are as many symbols as keys, so a list of different keys of the table is no longer than
the table. -/
theorem size_eq_length_keys (table : SymbolTable) : table.size = table.keys.length := by
  simp [size, keys]

end SymbolTable

end StoryCheck
