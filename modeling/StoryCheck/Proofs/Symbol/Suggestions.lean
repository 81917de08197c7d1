import StoryCheck.Proofs.Symbol.EditDistance

/-!
# Suggestions are the best there are

A suggestion is the least of some candidates. What the candidates are compared by tells all of them
apart, so it depends on the symbols that are known and not on their order in the table.

* **`IsClosestNamesake`**, **`IsClosestName`**, **`IsSuggestion`** — what is to be suggested.
* **`isLE_of_least?`** — the least of a list by an order.
* **`mem_neighbours_iff`** — names of another length are left out only if they are far.
* **`suggestions_are_best`** — what is to be suggested is suggested.
-/

namespace StoryCheck

/-! ## What is to be suggested

The specification. It speaks of keys that are known and of two distances, and not of the order in
which a table lists them. -/

namespace SymbolKey

variable {known : SymbolKey → Prop} {key other rival : SymbolKey}

/-- The name is the same, and the number of parameters another one. -/
def IsNamesake (key other : SymbolKey) : Prop := other.name = key.name ∧ other.arity ≠ key.arity

/-- The number of parameters is the same, and a few edits lead to the other name. -/
def IsNear (key other : SymbolKey) : Prop :=
  other.arity = key.arity ∧ other.name ≠ key.name
    ∧ levenshtein key.name.toList other.name.toList ≤ SymbolTable.maxSuggestionDistance

/-- Among those known of the same name, the one whose number of parameters is closest, and the smaller
one of two that are equally close. -/
structure IsClosestNamesake (known : SymbolKey → Prop) (key other : SymbolKey) : Prop where
  isKnown : known other
  namesake : key.IsNamesake other
  closest : ∀ rival, known rival → key.IsNamesake rival →
    distance other.arity key.arity < distance rival.arity key.arity
      ∨ distance other.arity key.arity = distance rival.arity key.arity ∧ other.arity ≤ rival.arity

/-- Among those known with a name that is near, the one whose name is closest, and the first one of
those that are equally close. -/
structure IsClosestName (known : SymbolKey → Prop) (key other : SymbolKey) : Prop where
  isKnown : known other
  near : key.IsNear other
  closest : ∀ rival, known rival → key.IsNear rival →
    levenshtein key.name.toList other.name.toList < levenshtein key.name.toList rival.name.toList
      ∨ levenshtein key.name.toList other.name.toList = levenshtein key.name.toList rival.name.toList
        ∧ (other.order rival).isLE

/-- What is to be suggested. The same name goes before all others. -/
inductive IsSuggestion (known : SymbolKey → Prop) (key other : SymbolKey) : Prop
  | namesake (h : IsClosestNamesake known key other)
  | name (hnone : ∀ rival, known rival → ¬ key.IsNamesake rival) (h : IsClosestName known key other)

instance : Std.TransCmp order :=
  inferInstanceAs (Std.TransCmp (compareLex (compareOn name) (compareOn arity)))

/-- Keys that the order does not tell apart are the same key. -/
theorem eq_of_order (h : key.order other = .eq) : key = other := by
  obtain ⟨hname, harity⟩ := Ordering.then_eq_eq.1 h
  exact congrArg₂ SymbolKey.mk (Std.LawfulEqCmp.eq_of_compare hname) (Std.LawfulEqCmp.eq_of_compare harity)

/-- There is one closest namesake at most: of two, neither is before the other. -/
theorem IsClosestNamesake.unique (h : IsClosestNamesake known key other)
    (hrival : IsClosestNamesake known key rival) : other = rival := by
  have hle := h.closest rival hrival.isKnown hrival.namesake
  have hge := hrival.closest other h.isKnown h.namesake
  have harity : other.arity = rival.arity := by omega
  exact congrArg₂ SymbolKey.mk (h.namesake.1.trans hrival.namesake.1.symm) harity

/-- There is one closest name at most. -/
theorem IsClosestName.unique (h : IsClosestName known key other)
    (hrival : IsClosestName known key rival) : other = rival := by
  have hle := h.closest rival hrival.isKnown hrival.near
  have hge := hrival.closest other h.isKnown h.near
  obtain ⟨heq, hle⟩ := hle.resolve_left fun hlt => hge.elim hlt.asymm fun h => hlt.ne' h.1
  obtain ⟨-, hge⟩ := hge.resolve_left heq.not_gt
  exact eq_of_order (Std.OrientedCmp.isLE_antisymm hle hge)

end SymbolKey

namespace SymbolTable

open SymbolKey

variable {table : SymbolTable} {key other : SymbolKey}

/-- There is a symbol of known kind with the name and the number of parameters. -/
def Knows (table : SymbolTable) (key : SymbolKey) : Prop :=
  ∃ s ∈ table.symbols, s.key = key ∧ s.kind ≠ .unknown

/-! ## The least of a list

The least is found in one pass, which keeps the first of several that compare equal. Nothing is said
about ties here; the orders that are used have none among different keys. -/

section Least

variable {α : Type} {order : α → α → Ordering} {xs : List α} {x : α}

/-- The last of a list is compared with the least of those before it. -/
theorem least?_concat (order : α → α → Ordering) (xs : List α) (x : α) :
    least? order (xs ++ [x]) = match least? order xs with
      | none => some x
      | some y => if order x y = .lt then some x else some y := by
  rw [least?, List.foldl_append]
  rfl

/-- Only the empty list has no least. -/
theorem least?_eq_none_iff : least? order xs = none ↔ xs = [] := by
  induction xs using List.reverseRecOn with
  | nil => exact iff_of_true rfl rfl
  | append_singleton xs x _ =>
    rw [least?_concat]
    split
    · simp
    · split <;> simp

/-- The least of a list is in it, and nothing in it is less. -/
theorem isLE_of_least? [Std.TransCmp order] (h : least? order xs = some x) :
    x ∈ xs ∧ ∀ y ∈ xs, (order x y).isLE := by
  -- From the back, as the pass goes.
  induction xs using List.reverseRecOn generalizing x with
  | nil => cases h
  | append_singleton xs last ih =>
    rw [least?_concat] at h
    cases hbest : least? order xs with
    | none =>
      obtain rfl := least?_eq_none_iff.1 hbest
      rw [hbest] at h
      obtain rfl := Option.some.inj h
      simp [Std.ReflCmp.isLE_rfl]
    | some best =>
      obtain ⟨hmem, hleast⟩ := ih hbest
      rw [hbest] at h
      dsimp only at h
      split at h
      case isTrue hlt =>
        obtain rfl := Option.some.inj h
        have hle : (order last best).isLE := by rw [hlt]; rfl
        refine ⟨by simp, fun y hy => ?_⟩
        rcases List.mem_append.1 hy with hy | hy
        · exact Std.TransCmp.isLE_trans hle (hleast y hy)
        · rw [List.mem_singleton.1 hy]
          exact Std.ReflCmp.isLE_rfl
      case isFalse hge =>
        obtain rfl := Option.some.inj h
        refine ⟨List.mem_append_left _ hmem, fun y hy => ?_⟩
        rcases List.mem_append.1 hy with hy | hy
        · exact hleast y hy
        · have hswap : order best last = (order last best).swap := Std.OrientedCmp.eq_swap
          rw [List.mem_singleton.1 hy, hswap]
          cases hcompare : order last best with
          | lt => exact absurd hcompare hge
          | eq => rfl
          | gt => rfl

end Least

/-! ## The same name

Of several namesakes the least in an order is suggested. The order decides between any two, so that
there is one least. -/

/-- Symbols by how far their number of parameters is from some number. -/
def arityOrder (arity : Nat) (a b : StorySymbol) : Ordering :=
  (compare (distance a.arity arity) (distance b.arity arity)).then (compare a.arity b.arity)

instance (arity : Nat) : Std.TransCmp (arityOrder arity) :=
  inferInstanceAs (Std.TransCmp (compareLex (compareOn fun s : StorySymbol => distance s.arity arity)
    (compareOn StorySymbol.arity)))

/-- The symbols of known kind of the same name. -/
def namesakes (table : SymbolTable) (key : SymbolKey) : List StorySymbol :=
  table.symbols.filter fun s => s.kind != .unknown && s.name == key.name && s.arity != key.arity

/-- The namesake that is suggested is the least by distance of arities. -/
theorem otherArity?_eq (table : SymbolTable) (key : SymbolKey) :
    table.otherArity? key = (least? (arityOrder key.arity) (table.namesakes key)).map (·.key) := rfl

/-- The candidates are the known symbols of the same name and another arity. -/
theorem exists_mem_namesakes_iff : (∃ s ∈ table.namesakes key, s.key = other)
    ↔ table.Knows other ∧ key.IsNamesake other := by
  simp only [namesakes, List.mem_filter, Bool.and_eq_true, bne_iff_ne, beq_iff_eq]
  constructor
  · rintro ⟨s, ⟨hmem, ⟨hkind, hname⟩, harity⟩, rfl⟩
    exact ⟨⟨s, hmem, rfl, hkind⟩, hname, harity⟩
  · rintro ⟨⟨s, hmem, rfl, hkind⟩, hname, harity⟩
    exact ⟨s, ⟨hmem, ⟨hkind, hname⟩, harity⟩, rfl⟩

/-- No namesake is suggested just if there is none. -/
theorem otherArity?_eq_none_iff :
    table.otherArity? key = none ↔ ∀ rival, table.Knows rival → ¬ key.IsNamesake rival := by
  rw [otherArity?_eq, Option.map_eq_none_iff, least?_eq_none_iff, List.eq_nil_iff_forall_not_mem]
  constructor
  · intro h rival hknown hname
    obtain ⟨s, hs, -⟩ := exists_mem_namesakes_iff.2 ⟨hknown, hname⟩
    exact h s hs
  · intro h s hs
    obtain ⟨hknown, hname⟩ := exists_mem_namesakes_iff.1 ⟨s, hs, rfl⟩
    exact h s.key hknown hname

/-- A namesake that is suggested is the closest. -/
theorem isClosestNamesake_of_otherArity? (h : table.otherArity? key = some other) :
    IsClosestNamesake table.Knows key other := by
  rw [otherArity?_eq] at h
  obtain ⟨s, hs, rfl⟩ := Option.map_eq_some_iff.1 h
  obtain ⟨hmem, hleast⟩ := isLE_of_least? hs
  obtain ⟨hknown, hname⟩ := exists_mem_namesakes_iff.1 ⟨s, hmem, rfl⟩
  refine ⟨hknown, hname, fun rival hrival hsame => ?_⟩
  obtain ⟨r, hr, rfl⟩ := exists_mem_namesakes_iff.2 ⟨hrival, hsame⟩
  have hle := hleast r hr
  rwa [arityOrder, Ordering.isLE_then_iff_or, Nat.compare_eq_lt, Nat.compare_eq_eq, Nat.isLE_compare]
    at hle

/-- And the closest is suggested, as there is only one. -/
theorem otherArity?_eq_some_iff :
    table.otherArity? key = some other ↔ IsClosestNamesake table.Knows key other := by
  refine ⟨isClosestNamesake_of_otherArity?, fun h => ?_⟩
  cases hfound : table.otherArity? key with
  | none => exact absurd h.namesake (otherArity?_eq_none_iff.1 hfound other h.isKnown)
  | some found => rw [(isClosestNamesake_of_otherArity? hfound).unique h]

/-! ## Another name

Names are first filtered by length, which is cheaper than counting edits. Two names whose lengths
differ by more than the bound are further apart than that, so the filter loses none. -/

/-- Names with their distances, by these. -/
def nameOrder (a b : Nat × SymbolKey) : Ordering := (compare a.1 b.1).then (a.2.order b.2)

instance : Std.TransCmp nameOrder :=
  inferInstanceAs (Std.TransCmp (compareLex (compareOn Prod.fst)
    (compareLex (compareOn fun a : Nat × SymbolKey => a.2.name) (compareOn fun a => a.2.arity))))

/-- The names of known symbols that are near, each with its distance. -/
def neighbours (table : SymbolTable) (key : SymbolKey) : List (Nat × SymbolKey) :=
  let candidates := table.symbols.filter fun s =>
    s.kind != .unknown && s.arity == key.arity && s.name != key.name
      && distance s.name.length key.name.length ≤ maxSuggestionDistance
  (candidates.map fun s => (editDistance key.name.toList s.name.toList, s.key)).filter fun (d, _) =>
    d ≤ maxSuggestionDistance

/-- The name that is suggested is the least by distance of names. -/
theorem nearName?_eq (table : SymbolTable) (key : SymbolKey) :
    table.nearName? key = (least? nameOrder (table.neighbours key)).map (·.2) := rfl

/-- A near name has nearly the length. Candidates that are filtered out by their length are
therefore not near. -/
theorem distance_length_le_of_near (h : key.IsNear other) :
    distance other.name.length key.name.length ≤ maxSuggestionDistance := by
  have hle := (distance_length_le key.name.toList other.name.toList).trans h.2.2
  simp only [String.length_toList, distance] at hle ⊢
  omega

/-- **No name that is near is left out** for its length. -/
theorem mem_neighbours_iff {d : Nat} : (d, other) ∈ table.neighbours key
    ↔ table.Knows other ∧ key.IsNear other ∧ d = levenshtein key.name.toList other.name.toList := by
  simp only [neighbours, List.mem_filter, List.mem_map, Bool.and_eq_true, bne_iff_ne, beq_iff_eq,
    decide_eq_true_eq, editDistance_eq_levenshtein]
  constructor
  · rintro ⟨⟨s, ⟨hs, ⟨⟨hkind, harity⟩, hname⟩, -⟩, heq⟩, hsmall⟩
    obtain ⟨rfl, rfl⟩ := Prod.mk.inj heq
    exact ⟨⟨s, hs, rfl, hkind⟩, ⟨harity, hname, hsmall⟩, rfl⟩
  · rintro ⟨⟨s, hs, rfl, hkind⟩, hnear, rfl⟩
    exact ⟨⟨s, ⟨hs, ⟨⟨hkind, hnear.1⟩, hnear.2.1⟩, distance_length_le_of_near hnear⟩, rfl⟩, hnear.2.2⟩

/-- No name is suggested just if none is near. -/
theorem nearName?_eq_none_iff :
    table.nearName? key = none ↔ ∀ rival, table.Knows rival → ¬ key.IsNear rival := by
  rw [nearName?_eq, Option.map_eq_none_iff, least?_eq_none_iff, List.eq_nil_iff_forall_not_mem]
  constructor
  · intro h rival hknown hnear
    exact h _ (mem_neighbours_iff.2 ⟨hknown, hnear, rfl⟩)
  · rintro h ⟨d, other⟩ hmem
    obtain ⟨hknown, hnear, -⟩ := mem_neighbours_iff.1 hmem
    exact h other hknown hnear

/-- A name that is suggested is the closest. -/
theorem isClosestName_of_nearName? (h : table.nearName? key = some other) :
    IsClosestName table.Knows key other := by
  rw [nearName?_eq] at h
  obtain ⟨⟨d, other⟩, hfound, rfl⟩ := Option.map_eq_some_iff.1 h
  obtain ⟨hmem, hleast⟩ := isLE_of_least? hfound
  obtain ⟨hknown, hnear, rfl⟩ := mem_neighbours_iff.1 hmem
  refine ⟨hknown, hnear, fun rival hrival hclose => ?_⟩
  have hle := hleast _ (mem_neighbours_iff.2 ⟨hrival, hclose, rfl⟩)
  rwa [nameOrder, Ordering.isLE_then_iff_or, Nat.compare_eq_lt, Nat.compare_eq_eq] at hle

/-- And the closest is suggested. -/
theorem nearName?_eq_some_iff :
    table.nearName? key = some other ↔ IsClosestName table.Knows key other := by
  refine ⟨isClosestName_of_nearName?, fun h => ?_⟩
  cases hfound : table.nearName? key with
  | none => exact absurd h.near (nearName?_eq_none_iff.1 hfound other h.isKnown)
  | some found => rw [(isClosestName_of_nearName? hfound).unique h]

/-! ## Suggestions

A namesake is preferred, however close another name may be. -/

/-- What is suggested is what is to be suggested. -/
theorem suggest?_eq_some_iff :
    table.suggest? key = some other ↔ IsSuggestion table.Knows key other := by
  rw [suggest?, Option.or_eq_some_iff, otherArity?_eq_some_iff, otherArity?_eq_none_iff,
    nearName?_eq_some_iff]
  constructor
  · rintro (h | ⟨hnone, h⟩)
    · exact .namesake h
    · exact .name hnone h
  · rintro (h | ⟨hnone, h⟩)
    · exact .inl h
    · exact .inr ⟨hnone, h⟩

/-- Nothing is suggested just if there is neither a namesake nor a near name. -/
theorem suggest?_eq_none_iff : table.suggest? key = none
    ↔ ∀ rival, table.Knows rival → ¬ key.IsNamesake rival ∧ ¬ key.IsNear rival := by
  rw [suggest?, Option.or_eq_none_iff, otherArity?_eq_none_iff, nearName?_eq_none_iff]
  exact forall₂_and.symm

/-- Tables that know the same symbols make the same suggestions. -/
theorem suggest?_congr {changed : SymbolTable} (h : ∀ key, changed.Knows key ↔ table.Knows key)
    (key : SymbolKey) : changed.suggest? key = table.suggest? key := by
  have hknows : changed.Knows = table.Knows := funext fun key => propext (h key)
  refine Option.ext fun other => ?_
  rw [suggest?_eq_some_iff, suggest?_eq_some_iff, hknows]

/-- **What is suggested is the best of the known symbols:** the one of the same name whose number of
parameters is closest, or else the one with as many parameters whose name is closest; and nothing
exactly if there is no such symbol. The order of the table does not matter. -/
theorem suggestions_are_best (table : SymbolTable) (key : SymbolKey) :
    (∀ other, table.suggest? key = some other ↔ IsSuggestion table.Knows key other)
      ∧ (table.suggest? key = none
        ↔ ∀ rival, table.Knows rival → ¬ key.IsNamesake rival ∧ ¬ key.IsNear rival)
      ∧ ∀ shuffled : SymbolTable, shuffled.symbols.Perm table.symbols →
        shuffled.suggest? key = table.suggest? key := by
  refine ⟨fun other => suggest?_eq_some_iff, suggest?_eq_none_iff, fun shuffled hperm => ?_⟩
  exact suggest?_congr (fun key => exists_congr fun s => and_congr_left' hperm.mem_iff) key

end SymbolTable

end StoryCheck
