import Mathlib.Algebra.Order.BigOperators.Group.List
import Mathlib.Algebra.Order.Ring.Nat
import StoryCheck.Proofs.Symbol.Justified

/-!
# Derivable symbols

Whether a symbol could be resolved at all, with types left out of account: it is declared, or some
definition that it may adopt takes its types from derivable symbols only. This is a least fixed
point, so a circle of symbols that only wait for each other is not derivable.

* **`Derivable`** — the fixed point, as an inductive predicate; `derives` computes it, up to a depth.
* **`Derivable.within`** — derivations carry over from one table to another along a set of symbols
  that is closed under references.
* **`Derivable.step_without`** — a derivation need not come back to where it started. This is what
  makes it safe to look at a symbol without the symbols that are waiting for it.
-/

namespace StoryCheck

namespace StorySymbol

/-- A definition that a symbol may adopt and that has a source for every parameter. -/
structure Proposes (s : StorySymbol) (d : SymbolDefinition) : Prop where
  mem : d ∈ s.definitions
  candidate : s.isDatabase = true → d.access = .write
  not_partial : d.isPartial = false

variable {s t : StorySymbol} {d : SymbolDefinition}

/-- A symbol with more definitions proposes more. -/
theorem Proposes.of_subset (h : s.Proposes d) (hkey : t.key = s.key) (hd : d ∈ t.definitions) :
    t.Proposes d where
  mem := hd
  candidate hdatabase := by
    rw [isDatabase, name, hkey] at hdatabase
    exact h.candidate hdatabase
  not_partial := h.not_partial

/-- What is proposed is settled by what goals say. -/
theorem Proposes.of_evidence (h : s.Proposes d) (hevidence : s.evidence = t.evidence) :
    t.Proposes d :=
  h.of_subset (key_eq_of_evidence hevidence).symm (definitions_eq_of_evidence hevidence ▸ h.mem)

/-- A definition that is proposed is a candidate, whatever the weights are. -/
theorem Proposes.exists_candidate (h : s.Proposes d) (weights : Weights) :
    ∃ index, (index, d) ∈ s.candidates weights := by
  obtain ⟨index, hlt, hd⟩ := List.getElem_of_mem h.mem
  exact ⟨index, mem_candidates.2 ⟨List.getElem?_eq_some_iff.2 ⟨hlt, hd⟩, h.candidate⟩⟩

end StorySymbol

namespace SymbolTable

variable {table a b : SymbolTable} {key other : SymbolKey} {chain : List SymbolKey}
  {s t : StorySymbol} {d : SymbolDefinition}

/-- A symbol that could be resolved if types were left out of account. -/
inductive Derivable (table : SymbolTable) : SymbolKey → Prop where
  | declared {key : SymbolKey} {s : StorySymbol} (hget : table.get? key = some s)
      (hsystem : s.isSystem = true) : Derivable table key
  | inferred {key : SymbolKey} {s : StorySymbol} {d : SymbolDefinition}
      (hget : table.get? key = some s) (hproposes : s.Proposes d)
      (hreferences : ∀ other ∈ d.references, Derivable table other) : Derivable table key

/-- **Derivations carry over** along symbols that refer to each other only, if what they rest on is
there in the other table. -/
theorem Derivable.within {P : SymbolKey → Prop} (h : b.Derivable key) (hkey : P key)
    (hdeclared : ∀ {key t}, P key → b.get? key = some t → t.isSystem = true → a.Derivable key)
    (hinferred : ∀ {key t d}, P key → b.get? key = some t → t.Proposes d →
      (∃ s, a.get? key = some s ∧ d ∈ s.definitions) ∧ ∀ other ∈ d.references, P other) :
    a.Derivable key := by
  induction h with
  | declared hget hsystem => exact hdeclared hkey hget hsystem
  | inferred hget hproposes _ ih =>
    obtain ⟨⟨s, hs, hd⟩, hclosed⟩ := hinferred hkey hget hproposes
    have hsame := (key_of_get? hs).trans (key_of_get? hget).symm
    exact .inferred hs (hproposes.of_subset hsame hd) fun other href =>
      ih other href (hclosed other href)

/-- With more definitions no less is derivable. -/
theorem Derivable.mono (h : b.Derivable key)
    (hsub : ∀ {key t}, b.get? key = some t → ∃ s, a.get? key = some s
      ∧ (t.isSystem = true → s.isSystem = true) ∧ t.definitions ⊆ s.definitions) :
    a.Derivable key := by
  refine h.within (P := fun _ => True) trivial (fun _ hget hsystem => ?_) fun _ hget hproposes => ?_
  · obtain ⟨s, hs, hdeclared, -⟩ := hsub hget
    exact .declared hs (hdeclared hsystem)
  · obtain ⟨s, hs, -, hdefinitions⟩ := hsub hget
    exact ⟨⟨s, hs, hdefinitions hproposes.mem⟩, fun _ _ => trivial⟩

/-- What is derivable depends on what goals and the header say only. -/
theorem Derivable.of_evolves (h : b.Derivable key) (hevolves : a.Evolves b) : a.Derivable key :=
  h.mono fun hget => by
    obtain ⟨s, hs, hst⟩ := hevolves.exists_before hget
    have hsystem := StorySymbol.isSystem_eq_of_evidence hst.evidence_eq
    have hdefinitions := StorySymbol.definitions_eq_of_evidence hst.evidence_eq
    exact ⟨s, hs, hsystem.symm.trans, hdefinitions ▸ List.Subset.refl _⟩

/-- What is resolved is derivable: its account of its types is a derivation. -/
theorem Sound.derivable (h : table.Sound) (hget : table.get? key = some s)
    (hresolved : s.resolution = .resolved) : table.Derivable key := by
  -- Who takes types from whom is well-founded.
  induction key using h.wellFounded.induction generalizing s with
  | h key ih =>
    cases hsystem : s.isSystem with
    | true => exact .declared hget hsystem
    | false =>
      obtain ⟨index, d, hjustifies⟩ := h.justified hget hsystem hresolved
      have hproposes : s.Proposes d :=
        ⟨List.mem_of_getElem? hjustifies.getElem?_eq, hjustifies.candidate, hjustifies.not_partial⟩
      refine .inferred hget hproposes fun other href => ?_
      obtain ⟨ref, type, rfl, t, p, ht, -, ht_resolved, -⟩ := hjustifies.offers href
      exact ih ref.symbol ⟨s, d, hget, hjustifies.canonicalDefinition?, href⟩ ht ht_resolved

/-! ## Deriving by rounds

In a given table derivations can be computed: `rounds` bounds how deep they are. -/

/-- Whether a symbol has a derivation of at most that depth. -/
def derives (table : SymbolTable) : (rounds : Nat) → SymbolKey → Bool
  | 0, _ => false
  | rounds + 1, key =>
    (table.get? key).any fun s => s.isSystem || s.definitions.any fun d =>
      (!s.isDatabase || d.access == .write) && !d.isPartial
        && d.references.all (table.derives rounds)

/-- A symbol is derived in one round more from symbols that are derived. -/
theorem derives_succ {rounds : Nat} :
    table.derives (rounds + 1) key = true ↔ ∃ s, table.get? key = some s
      ∧ (s.isSystem = true ∨ ∃ d, s.Proposes d
        ∧ ∀ other ∈ d.references, table.derives rounds other = true) := by
  have hproposes {s : StorySymbol} {d : SymbolDefinition} :
      s.Proposes d ↔ d ∈ s.definitions ∧ (s.isDatabase = false ∨ d.access = .write)
        ∧ d.isPartial = false := by
    refine ⟨fun h => ⟨h.mem, ?_, h.not_partial⟩, fun ⟨hd, hcandidate, hpartial⟩ => ⟨hd, ?_, hpartial⟩⟩
    · cases hdatabase : s.isDatabase with
      | true => exact Or.inr (h.candidate hdatabase)
      | false => exact Or.inl rfl
    · exact fun hdatabase => hcandidate.resolve_left (by simp [hdatabase])
  simp only [derives, Option.any_eq_true, Bool.or_eq_true, List.any_eq_true, Bool.and_eq_true,
    Bool.not_eq_true', beq_iff_eq, List.all_eq_true, hproposes, and_assoc]

/-- What is derived stays so in later rounds. -/
theorem derives_mono {rounds more : Nat} (h : table.derives rounds key = true)
    (hle : rounds ≤ more) : table.derives more key = true := by
  induction rounds generalizing key more with
  | zero => cases h
  | succ rounds ih =>
    obtain ⟨more, rfl⟩ : ∃ n, more = n + 1 := ⟨more - 1, by omega⟩
    obtain ⟨s, hget, hsystem | ⟨d, hproposes, hreferences⟩⟩ := derives_succ.1 h
    · exact derives_succ.2 ⟨s, hget, Or.inl hsystem⟩
    · exact derives_succ.2 ⟨s, hget, Or.inr ⟨d, hproposes, fun other href =>
        ih (hreferences other href) (Nat.le_of_succ_le_succ hle)⟩⟩

/-- A symbol is derivable just if it has a derivation of some depth. -/
theorem derivable_iff : table.Derivable key ↔ ∃ rounds, table.derives rounds key = true := by
  constructor
  · intro h
    induction h with
    | declared hget hsystem => exact ⟨1, derives_succ.2 ⟨_, hget, Or.inl hsystem⟩⟩
    | @inferred key s d hget hproposes _ ih =>
      -- There are finitely many references, so one depth serves for all.
      choose! rounds hrounds using ih
      refine ⟨(d.references.map rounds).sum + 1,
        derives_succ.2 ⟨s, hget, Or.inr ⟨d, hproposes, fun other href => ?_⟩⟩⟩
      exact derives_mono (hrounds other href)
        (List.single_le_sum (fun _ _ => Nat.zero_le _) _ (List.mem_map.2 ⟨other, href, rfl⟩))
  · rintro ⟨rounds, h⟩
    induction rounds generalizing key with
    | zero => cases h
    | succ rounds ih =>
      obtain ⟨s, hget, hsystem | ⟨d, hproposes, hreferences⟩⟩ := derives_succ.1 h
      · exact .declared hget hsystem
      · exact .inferred hget hproposes fun other href => ih (hreferences other href)

/-! ## Leaving symbols out

A search from below a chain does not see the symbols on it. Whether a symbol is derivable without
them is what such a search finds out. -/

/-- The table without some symbols. -/
def without (table : SymbolTable) (chain : List SymbolKey) : SymbolTable :=
  ⟨table.symbols.filter fun s => !chain.contains s.key⟩

/-- With none left out there is the same table. -/
theorem without_nil : table.without [] = table := by
  simp [without]

/-- A symbol that is left out is not found. -/
theorem get?_without :
    (table.without chain).get? key = if key ∈ chain then none else table.get? key := by
  simp only [without, get?, List.find?_filter]
  split
  · next hmem =>
    refine List.find?_eq_none.2 fun s _ hs => ?_
    have hs : s.key ∉ chain ∧ s.key = key := by simpa using hs
    exact hs.1 (hs.2 ▸ hmem)
  · next hmem =>
    congr 1
    funext s
    by_cases heq : s.key = key
    · simp [heq, hmem]
    · simp [heq]

/-- What is found is in the table and not on the chain. -/
theorem get?_of_without (hget : (table.without chain).get? key = some s) :
    key ∉ chain ∧ table.get? key = some s := by
  rw [get?_without] at hget
  split at hget
  · cases hget
  · next hmem => exact ⟨hmem, hget⟩

/-- A derivation without some symbols is one with them. -/
theorem Derivable.of_without (h : (table.without chain).Derivable key) : table.Derivable key :=
  h.mono fun hget => ⟨_, (get?_of_without hget).2, id, List.Subset.refl _⟩

/-- A symbol that is left out is not derivable. -/
theorem not_derivable_without (hmem : key ∈ chain) : ¬ (table.without chain).Derivable key := by
  intro h
  cases h with
  | declared hget _ | inferred hget _ _ => exact (get?_of_without hget).1 hmem

/-- **A derivation need not come back to where it started.** If a symbol is derivable at all, it is
declared or proposes a definition whose references are derivable without it. -/
theorem Derivable.step_without (h : (table.without chain).Derivable key)
    (hget : table.get? key = some s) (hsystem : s.isSystem = false) :
    ∃ d, s.Proposes d ∧ ∀ other ∈ d.references, (table.without (key :: chain)).Derivable other := by
  -- Along the derivation, a symbol either does without `key` or has found such a definition.
  suffices hmain : ∀ other, (table.without chain).Derivable other →
      (table.without (key :: chain)).Derivable other
        ∨ ∃ d, s.Proposes d
          ∧ ∀ other ∈ d.references, (table.without (key :: chain)).Derivable other by
    rcases hmain key h with hkey | hfound
    · exact absurd hkey (not_derivable_without List.mem_cons_self)
    · exact hfound
  have hstill {other t} (hne : other ≠ key) (ht : (table.without chain).get? other = some t) :
      (table.without (key :: chain)).get? other = some t := by
    obtain ⟨hmem, ht⟩ := get?_of_without ht
    rw [get?_without, if_neg (by simp [hne, hmem]), ht]
  intro other hother
  induction hother with
  | @declared other t ht ht_system =>
    refine Or.inl (.declared (hstill ?_ ht) ht_system)
    rintro rfl
    rw [(get?_of_without ht).2, Option.some.injEq] at hget
    exact absurd ht_system (by simp [hget, hsystem])
  | @inferred other t d ht hproposes _ ih =>
    by_cases hfound : ∃ d, s.Proposes d
        ∧ ∀ other ∈ d.references, (table.without (key :: chain)).Derivable other
    · exact Or.inr hfound
    · have hreferences : ∀ target ∈ d.references,
          (table.without (key :: chain)).Derivable target :=
        fun target href => (ih target href).resolve_right hfound
      by_cases heq : other = key
      · subst heq
        rw [(get?_of_without ht).2, Option.some.injEq] at hget
        exact Or.inr ⟨d, hget ▸ hproposes, hreferences⟩
      · exact Or.inl (.inferred (hstill heq ht) hproposes hreferences)

end SymbolTable

end StoryCheck
