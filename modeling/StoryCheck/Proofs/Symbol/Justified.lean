import Mathlib.Data.List.Forall2
import Mathlib.Order.WellFounded
import StoryCheck.Proofs.Symbol.Edits
import StoryCheck.Proofs.Symbol.Evolution

/-!
# Justified types

A symbol that is resolved says where its types are from: it holds the place of the definition that
it adopted, and each parameter of that definition carries a type of its own or points at a parameter
of another resolved symbol. This module states that account, the invariant that keeps it true, and
that edits keep the invariant.

## The architecture

* **`Justifies`** — the account that a symbol gives of its types.
* **`Lends`** — a symbol takes a type from another through the definition that it adopted.
* **`Sound`** — the invariant: all accounts are true, a symbol with an adopted definition is not
  flagged, and lending is well-founded.
* **`Sound.edit`** — an edit keeps some symbols and takes back the rest. It is sound if whoever is
  kept has its lenders kept, so the edges of lending only get fewer.
* **`Sound.addGoal`, `Sound.removeGoal`, `Sound.prune`, `Sound.invalidateAll`** — the edits there are.
-/

/-- Edges into a place that no edge leaves from keep a relation well-founded. -/
theorem WellFounded.of_fresh {α : Type*} {r r' : α → α → Prop} (hwf : WellFounded r) (fresh : α)
    (hold : ∀ x y, y ≠ fresh → r' x y → r x y) (hfresh : ∀ y, ¬ r' fresh y) : WellFounded r' := by
  have hother : ∀ y, y ≠ fresh → Acc r' y := by
    intro y
    induction y using hwf.induction with
    | h y ih =>
      refine fun hne => ⟨y, fun x hx => ?_⟩
      have hx_ne : x ≠ fresh := fun heq => hfresh y (heq ▸ hx)
      exact ih x (hold x y hne hx) hx_ne
  refine ⟨fun y => ⟨y, fun x hx => hother x fun heq => hfresh y (heq ▸ hx)⟩⟩

namespace StoryCheck

open Syntax

namespace SymbolTable

variable {table a b : SymbolTable} {key other target source : SymbolKey} {s t : StorySymbol}

/-! ## The account that a symbol gives

A resolved symbol names the definition that it has adopted. That one names, for each type, a
parameter that has it. Following these names must end, so that no circle of symbols vouches for
itself. -/

/-- A reference points at a parameter, of the given type, of a symbol that is settled. -/
def Offers (table : SymbolTable) (ref : ParameterRef) (type : ValueType) : Prop :=
  ∃ s p, table.get? ref.symbol = some s ∧ s.needsUpdate = false ∧ s.resolution = .resolved
    ∧ s.parameters[ref.index]? = some p ∧ p.type = type ∧ type.isKnown = true

/-- A parameter of a definition stands for a type, with the place that the type is from. -/
def Gives (table : SymbolTable) (p : DefinitionParameter) :
    ValueType × Option ParameterRef → Prop
  | (type, origin) =>
    match p.source with
    | .explicit own => type = own ∧ origin = none
    | .reference ref => origin = some ref ∧ table.Offers ref type
    | .unknown => False

/-- A parameter of a symbol is as a parameter of a definition has it. -/
def Backs (table : SymbolTable) (p : DefinitionParameter) (q : SymbolParameter) : Prop :=
  table.Gives p (q.type, q.origin)

/-- The account that a symbol gives of its types. -/
structure Justifies (table : SymbolTable) (s : StorySymbol) (index : Nat) (d : SymbolDefinition) :
    Prop where
  canonical : s.canonical = some index
  getElem?_eq : s.definitions[index]? = some d
  not_partial : d.isPartial = false
  candidate : s.isDatabase = true → d.access = .write
  backed : List.Forall₂ table.Backs d.parameters s.parameters

/-- A symbol takes a type from another through the definition that it adopted. -/
def Lends (table : SymbolTable) (target source : SymbolKey) : Prop :=
  ∃ s d, table.get? source = some s ∧ s.canonicalDefinition? = some d ∧ target ∈ d.references

/-- What holds of a table at all times. -/
structure Sound (table : SymbolTable) : Prop where
  nodup : table.keys.Nodup
  /-- Declared symbols are settled and take no types. -/
  declared : ∀ {key s}, table.get? key = some s → s.isSystem = true →
    s.isDead = false ∧ s.needsUpdate = false ∧ ∀ d ∈ s.definitions, d.references = []
  /-- Who adopted a definition can account for it. -/
  adopted : ∀ {key s index}, table.get? key = some s → s.isSystem = false →
    s.canonical = some index →
    s.isDead = false ∧ s.needsUpdate = false ∧ ∃ d, table.Justifies s index d
  wellFounded : WellFounded table.Lends

theorem Gives.mono {p : DefinitionParameter} {x : ValueType × Option ParameterRef}
    (h : a.Gives p x)
    (hoffers : ∀ ref type, p.source = .reference ref → a.Offers ref type → b.Offers ref type) :
    b.Gives p x := by
  obtain ⟨type, origin⟩ := x
  cases hsource : p.source with
  | explicit own => simpa [Gives, hsource] using h
  | unknown => simp [Gives, hsource] at h
  | reference ref =>
    simp only [Gives, hsource] at h ⊢
    exact ⟨h.1, hoffers ref type hsource h.2⟩

theorem Justifies.canonicalDefinition? {index : Nat} {d : SymbolDefinition}
    (h : table.Justifies s index d) : s.canonicalDefinition? = some d := by
  rw [StorySymbol.canonicalDefinition?, h.canonical]
  exact h.getElem?_eq

/-- What a definition whose parameters all give a type refers to is offered. -/
theorem exists_offers_of_gives {parameters : List DefinitionParameter}
    {types : List (ValueType × Option ParameterRef)} {p : DefinitionParameter} {ref : ParameterRef}
    (hgives : List.Forall₂ table.Gives parameters types) (hp : p ∈ parameters)
    (hsource : p.source = .reference ref) : ∃ type, table.Offers ref type := by
  obtain ⟨i, hlt, rfl⟩ := List.getElem_of_mem hp
  obtain ⟨hlength, hgive⟩ := List.forall₂_iff_get.1 hgives
  have hgive := hgive i hlt (hlength ▸ hlt)
  simp only [List.get_eq_getElem, Gives, hsource] at hgive
  exact ⟨_, hgive.2⟩

theorem offers_of_gives {d : SymbolDefinition} {types : List (ValueType × Option ParameterRef)}
    (hgives : List.Forall₂ table.Gives d.parameters types) (href : target ∈ d.references) :
    ∃ ref type, ref.symbol = target ∧ table.Offers ref type := by
  obtain ⟨p, hp, ref, hsource, hsymbol⟩ := SymbolDefinition.mem_references.1 href
  obtain ⟨type, hoffer⟩ := exists_offers_of_gives hgives hp hsource
  exact ⟨ref, type, hsymbol, hoffer⟩

theorem Justifies.offers {index : Nat} {d : SymbolDefinition} (h : table.Justifies s index d)
    (href : target ∈ d.references) : ∃ ref type, ref.symbol = target ∧ table.Offers ref type :=
  offers_of_gives (List.forall₂_map_right_iff.2 h.backed) href

/-- A lender is settled, and so is who it lends to. -/
theorem Sound.of_lends (h : table.Sound) (hlends : table.Lends target source) :
    ∃ s index d, table.get? source = some s ∧ s.isSystem = false ∧ table.Justifies s index d
      ∧ ∃ ref type, ref.symbol = target ∧ table.Offers ref type := by
  obtain ⟨s, d, hget, hcanonical, href⟩ := hlends
  obtain ⟨index, hindex, hd⟩ := Option.bind_eq_some_iff.1 hcanonical
  cases hsystem : s.isSystem with
  | true =>
    have hnone := (h.declared hget hsystem).2.2 d (List.mem_of_getElem? hd)
    rw [hnone] at href
    cases href
  | false =>
    obtain ⟨-, -, d', hjustifies⟩ := h.adopted hget hsystem hindex
    have hd' : d' = d := Option.some.inj (hjustifies.getElem?_eq.symm.trans hd)
    subst hd'
    exact ⟨s, index, d', hget, hsystem, hjustifies, hjustifies.offers href⟩

theorem Sound.justified (h : table.Sound) (hget : table.get? key = some s)
    (hsystem : s.isSystem = false) (hresolved : s.resolution = .resolved) :
    ∃ index d, table.Justifies s index d := by
  cases hcanonical : s.canonical with
  | none => cases hdead : s.isDead <;> simp [StorySymbol.resolution, *] at hresolved
  | some index =>
    obtain ⟨-, -, d, hjustifies⟩ := h.adopted hget hsystem hcanonical
    exact ⟨index, d, hjustifies⟩

/-- Nobody takes a type from a flagged symbol. -/
theorem Sound.not_lends (h : table.Sound) (hget : table.get? key = some s)
    (hflag : s.needsUpdate = true) : ¬ table.Lends key source := by
  intro hlends
  obtain ⟨-, -, -, -, -, -, ref, type, rfl, t, -, ht, hsettled, -⟩ := h.of_lends hlends
  rw [hget] at ht
  cases ht
  exact absurd hflag (by simp [hsettled])

end SymbolTable

/-! ## Edits

An edit leaves some symbols as they are, up to what goals say about them besides the definition that
they adopted. From all others it takes the verdict. -/

namespace SymbolTable

variable {a b table : SymbolTable} {key other target source : SymbolKey} {s t : StorySymbol}

/-- **Edits are sound.** What is kept stays as it is, what is not has no verdict, and whoever is
kept has its lenders kept. -/
theorem Sound.edit (h : a.Sound) (hnodup : b.keys.Nodup) (kept : SymbolKey → Prop)
    (hkept : ∀ {key s}, kept key → a.get? key = some s → ∃ t, b.get? key = some t ∧ s.Extends t)
    (hback : ∀ {key t}, b.get? key = some t →
      (t.isSystem = false ∧ t.canonical = none) ∨ (kept key ∧ ∃ s, a.get? key = some s))
    (hlenders : ∀ {target source}, a.Lends target source → kept source → kept target) :
    b.Sound := by
  -- What has a canonical definition afterwards had it before, and its lenders go on offering.
  have hoffers {ref type} (href : kept ref.symbol) (hoffer : a.Offers ref type) :
      b.Offers ref type := by
    obtain ⟨s, p, hget, hsettled, hresolved, hp, htype⟩ := hoffer
    obtain ⟨t, ht, hextends⟩ := hkept href hget
    exact ⟨t, p, ht, hextends.needsUpdate.trans hsettled, hextends.resolution.trans hresolved,
      by rw [hextends.parameters, hp], htype⟩
  have hadopted {key t index} (ht : b.get? key = some t) (hsystem : t.isSystem = false)
      (hcanonical : t.canonical = some index) :
      kept key ∧ ∃ s d, a.get? key = some s ∧ s.Extends t ∧ a.Justifies s index d
        ∧ b.Justifies t index d := by
    rcases hback ht with ⟨-, hnone⟩ | ⟨hkeep, s, hs⟩
    · rw [hnone] at hcanonical
      cases hcanonical
    obtain ⟨t', ht', hextends⟩ := hkept hkeep hs
    have htt' : t' = t := Option.some.inj (ht'.symm.trans ht)
    subst htt'
    have hs_system : s.isSystem = false := hextends.isSystem.symm.trans hsystem
    have hs_canonical : s.canonical = some index := hextends.canonical.symm.trans hcanonical
    obtain ⟨-, -, d, hjustifies⟩ := h.adopted hs hs_system hs_canonical
    refine ⟨hkeep, s, d, hs, hextends, hjustifies, hcanonical, ?_, hjustifies.not_partial, ?_, ?_⟩
    · obtain ⟨rest, hrest⟩ := hextends.inferred hs_system
      rw [← hrest, List.getElem?_append_left (List.getElem?_eq_some_iff.1 hjustifies.getElem?_eq).1]
      exact hjustifies.getElem?_eq
    · intro hdatabase
      rw [StorySymbol.isDatabase, StorySymbol.name, hextends.key] at hdatabase
      exact hjustifies.candidate hdatabase
    · -- Lenders are kept along with the symbol.
      rw [hextends.parameters]
      have hmem := (List.forall₂_and_left _ _).2 ⟨fun p (hp : p ∈ d.parameters) => hp, hjustifies.backed⟩
      refine hmem.imp fun p q ⟨hp, hbacks⟩ => hbacks.mono fun ref type hsource hoffer => ?_
      have hlends : a.Lends ref.symbol key :=
        ⟨s, d, hs, hjustifies.canonicalDefinition?, SymbolDefinition.mem_references.2 ⟨p, hp, ref, hsource, rfl⟩⟩
      exact hoffers (hlenders hlends hkeep) hoffer
  have hdeclared {key t} (ht : b.get? key = some t) (hsystem : t.isSystem = true) :
      t.isDead = false ∧ t.needsUpdate = false ∧ ∀ d ∈ t.definitions, d.references = [] := by
    rcases hback ht with ⟨hnot, -⟩ | ⟨hkeep, s, hs⟩
    · exact absurd hsystem (by simp [hnot])
    · obtain ⟨t', ht', hextends⟩ := hkept hkeep hs
      have htt' : t' = t := Option.some.inj (ht'.symm.trans ht)
      subst htt'
      have hs_system : s.isSystem = true := hextends.isSystem.symm.trans hsystem
      obtain ⟨hdead, hsettled, hreferences⟩ := h.declared hs hs_system
      exact ⟨hextends.isDead.trans hdead, hextends.needsUpdate.trans hsettled,
        fun d hd => hreferences d (hextends.declared hs_system hd)⟩
  refine ⟨hnodup, hdeclared, fun {key t index} ht hsystem hcanonical => ?adopted, ?wellFounded⟩
  case adopted =>
    obtain ⟨-, s, d, hs, hextends, hjustifies, hjustifies'⟩ := hadopted ht hsystem hcanonical
    obtain ⟨hdead, hsettled, -⟩ :=
      h.adopted hs (hextends.isSystem.symm.trans hsystem) hjustifies.canonical
    exact ⟨hextends.isDead.trans hdead, hextends.needsUpdate.trans hsettled, d, hjustifies'⟩
  case wellFounded =>
    -- No edge is new.
    refine Subrelation.wf ?_ h.wellFounded
    rintro target source ⟨t, d, ht, hcanonical, href⟩
    obtain ⟨index, hindex, hd⟩ := Option.bind_eq_some_iff.1 hcanonical
    cases hsystem : t.isSystem with
    | false =>
      obtain ⟨-, s, d', hs, -, hjustifies, hjustifies'⟩ := hadopted ht hsystem hindex
      have hd' : d' = d := Option.some.inj (hjustifies'.getElem?_eq.symm.trans hd)
      subst hd'
      exact ⟨s, d', hs, hjustifies.canonicalDefinition?, href⟩
    | true =>
      rw [(hdeclared ht hsystem).2.2 d (List.mem_of_getElem? hd)] at href
      cases href

/-! ### Adding a goal

New definitions come behind the old ones, so that an account still points to the definition that it
named. What the goal concerns is taken back. -/

theorem Sound.enter (h : table.Sound) (goal : String) (site : CallSite) :
    (table.enter goal site).Sound := by
  refine h.edit (nodup_keys_enter h.nodup) (fun _ => True) (fun {key s} _ hget => ?_)
    (fun {key t} ht => ?_) fun _ _ => trivial
  · rw [get?_enter]
    split
    · next heq =>
      rw [← heq, hget]
      exact ⟨_, rfl, extends_addSite goal site s⟩
    · exact ⟨s, hget, .refl s⟩
  · rw [get?_enter] at ht
    split at ht
    · next heq =>
      cases hget : table.get? key with
      | some s => exact Or.inr ⟨trivial, s, rfl⟩
      | none =>
        -- A symbol that comes up with the call site has no verdict.
        rw [← heq, hget, Option.getD_none, Option.some.injEq] at ht
        have hextends := extends_addSite goal site (.ofKey key)
        rw [ht] at hextends
        exact Or.inl ⟨hextends.isSystem, hextends.canonical⟩
    · exact Or.inr ⟨trivial, t, ht⟩

theorem Sound.refresh (h : table.Sound) (changed : List SymbolKey) :
    (table.refresh changed).Sound := by
  have hnodup : (table.refresh changed).keys.Nodup := by
    rw [keys_refresh]
    exact h.nodup
  refine h.edit hnodup (fun _ => True) (fun {key s} _ hget => ?_)
    (fun {key t} ht => ?_) fun _ _ => trivial
  · rw [get?_refresh, hget]
    refine ⟨_, rfl, ?_⟩
    split
    · exact extends_refreshKind s
    · exact .refl s
  · rw [get?_refresh] at ht
    obtain ⟨s, hs, -⟩ := Option.map_eq_some_iff.1 ht
    exact Or.inr ⟨trivial, s, hs⟩

/-- **Taking back is sound where it reaches all dependents.** The definitions may have changed
before, but only those of symbols that are taken back. -/
theorem Sound.invalidateFrom (h : a.Sound) {changed : List SymbolKey} (hkeys : b.keys = a.keys)
    (hextends : ∀ {key s t}, a.get? key = some s → b.get? key = some t →
      key ∉ changed ∨ s.isSystem = true → s.Extends t)
    (hsystem : ∀ {key s t}, a.get? key = some s → b.get? key = some t → t.isSystem = s.isSystem) :
    (b.invalidateFrom changed).Sound := by
  have hafter {key s} (hget : a.get? key = some s) : ∃ t, b.get? key = some t :=
    Option.isSome_iff_exists.1 (get?_isSome_iff.2 (hkeys ▸ mem_keys_of_get? hget))
  have hbefore {key t} (hget : b.get? key = some t) : ∃ s, a.get? key = some s :=
    Option.isSome_iff_exists.1 (get?_isSome_iff.2 (hkeys ▸ mem_keys_of_get? hget))
  have hnot_changed {key} (hkey : key ∉ b.dependentsOf changed) : key ∉ changed :=
    fun hmem => hkey ((b.closed_dependentsOf changed).2 hmem)
  have hnodup : (b.invalidateFrom changed).keys.Nodup := by
    rw [keys_invalidateFrom, hkeys]
    exact h.nodup
  refine h.edit hnodup
    (fun key => key ∉ b.dependentsOf changed ∨ ∃ s, a.get? key = some s ∧ s.isSystem = true)
    (fun {key s} hkeep hget => ?kept) (fun {key u} hu => ?back) fun {target source} hlends hkeep => ?lenders
  case kept =>
    obtain ⟨t, ht⟩ := hafter hget
    rw [get?_invalidateFrom, ht]
    refine ⟨_, rfl, ?_⟩
    show s.Extends (if key ∈ b.dependentsOf changed then t.invalidate else t)
    rcases hkeep with hkey | ⟨s', hs', hdeclared⟩
    · rw [if_neg hkey]
      exact hextends hget ht (Or.inl (hnot_changed hkey))
    · rw [hget, Option.some.injEq] at hs'
      subst hs'
      rw [invalidate_of_isSystem ((hsystem hget ht).trans hdeclared), ite_self]
      exact hextends hget ht (Or.inr hdeclared)
  case back =>
    rw [get?_invalidateFrom] at hu
    obtain ⟨t, ht, rfl⟩ := Option.map_eq_some_iff.1 hu
    obtain ⟨s, hs⟩ := hbefore ht
    by_cases hkey : key ∈ b.dependentsOf changed
    · cases hdeclared : s.isSystem with
      | true => exact Or.inr ⟨Or.inr ⟨s, hs, hdeclared⟩, s, hs⟩
      | false =>
        have ht_system : t.isSystem = false := (hsystem hs ht).trans hdeclared
        rw [if_pos hkey]
        exact Or.inl ⟨(isSystem_invalidate t).trans ht_system, canonical_invalidate ht_system⟩
    · exact Or.inr ⟨Or.inl hkey, s, hs⟩
  case lenders =>
    -- Who borrows through a definition that is still there depends on the lender after the edit.
    obtain ⟨s, index, d, hs, hs_system, hjustifies, -⟩ := h.of_lends hlends
    have hsource : source ∉ b.dependentsOf changed := by
      rcases hkeep with hkey | ⟨s', hs', hdeclared⟩
      · exact hkey
      · rw [hs, Option.some.injEq] at hs'
        subst hs'
        exact absurd hdeclared (by simp [hs_system])
    obtain ⟨t, ht⟩ := hafter hs
    have hd : d ∈ t.definitions :=
      ((hextends hs ht (Or.inl (hnot_changed hsource))).inferred hs_system).subset
        (List.mem_of_getElem? hjustifies.getElem?_eq)
    obtain ⟨s', d', hs', hcanonical, href⟩ := hlends
    rw [hs, Option.some.injEq] at hs'
    subst hs'
    rw [hjustifies.canonicalDefinition?, Option.some.injEq] at hcanonical
    subst hcanonical
    exact Or.inl fun htarget => hsource (dependentsOf_closed ht hd href htarget)

theorem Sound.addGoal (h : table.Sound) (goal : String) (types : TypeRegistry) (tree : Goal) :
    (table.addGoal goal types tree).1.Sound := by
  have hfilled : ∀ (sites : List CallSite) (table : SymbolTable), table.Sound →
      (table.filled goal sites).Sound := by
    intro sites
    induction sites with
    | nil => exact fun _ h => h
    | cons site rest ih => exact fun table h => ih _ (h.enter goal site)
  rw [addGoal_fst]
  refine ((hfilled _ table h).refresh _).invalidateFrom rfl (fun hs ht _ => ?_) fun hs ht => ?_
  · rw [hs, Option.some.injEq] at ht
    subst ht
    exact .refl _
  · rw [hs, Option.some.injEq] at ht
    rw [ht]

/-! ### Taking out

Definitions move up when others go, and an account would then point to another one. So whatever has
lost a definition is taken back, and all that rests on it. -/

theorem get?_stripped {goal : String} (hget : table.get? key = some s) :
    ((table.map (strip goal)).refresh (table.definedBy goal)).get? key
      = some (if key ∈ table.definedBy goal then (strip goal s).refreshKind else strip goal s) := by
  have hkey : ∀ s, (strip goal s).key = s.key := fun _ => rfl
  rw [get?_refresh, get?_map hkey, hget]
  rfl

theorem Sound.removeGoal (h : table.Sound) (goal : String) : (table.removeGoal goal).Sound := by
  rw [removeGoal_eq]
  refine h.invalidateFrom ?_ (fun {key s t} hs ht hkeep => ?_) fun {key s t} hs ht => ?_
  · rw [keys_refresh]
    exact keys_map fun _ => rfl
  · rw [get?_stripped hs, Option.some.injEq] at ht
    subst ht
    have hstrip : s.Extends (strip goal s) := by
      rcases hkeep with hkey | hdeclared
      · exact .of_definitions rfl (definitions_strip hs hkey)
      · exact ⟨rfl, fun _ => List.filter_subset_self _, fun h => absurd hdeclared (by simp [h])⟩
    split
    · exact hstrip.trans (extends_refreshKind _)
    · exact hstrip
  · rw [get?_stripped hs, Option.some.injEq] at ht
    subst ht
    split
    · exact (extends_refreshKind _).isSystem
    · rfl

theorem Sound.prune (h : table.Sound) : table.prune.Sound := by
  refine h.edit (nodup_keys_prune h.nodup)
    (fun key => ∃ s, table.get? key = some s ∧ isReferred s = true)
    (fun {key s} hkeep hget => ?kept) (fun {key t} ht => ?back) fun {target source} hlends _ => ?lenders
  case kept =>
    obtain ⟨s', hs', hreferred⟩ := hkeep
    rw [hget, Option.some.injEq] at hs'
    subst hs'
    exact ⟨s, by rw [get?_prune h.nodup, hget, Option.filter_some, if_pos hreferred], .refl s⟩
  case back =>
    rw [get?_prune h.nodup, Option.filter_eq_some_iff] at ht
    exact Or.inr ⟨⟨t, ht⟩, t, ht.1⟩
  case lenders =>
    obtain ⟨-, -, -, -, -, -, ref, type, rfl, s, p, hs, -, hresolved, -⟩ := h.of_lends hlends
    refine ⟨s, hs, ?_⟩
    cases hsystem : s.isSystem with
    | true => simp [isReferred, hsystem]
    | false =>
      obtain ⟨index, d, hjustifies⟩ := h.justified hs hsystem hresolved
      have hnonempty : s.definitions ≠ [] :=
        List.ne_nil_of_mem (List.mem_of_getElem? hjustifies.getElem?_eq)
      simp [isReferred, hnonempty]

theorem Sound.invalidateAll (h : table.Sound) : table.invalidateAll.Sound := by
  have hnodup : table.invalidateAll.keys.Nodup := by
    rw [keys_invalidateAll]
    exact h.nodup
  -- What is kept is the declared symbols; all others go back to nothing, and a declared one lends
  -- no type by inference.
  refine h.edit hnodup (fun key => ∃ s, table.get? key = some s ∧ s.isSystem = true)
    (fun {key s} hkeep hget => ?kept) (fun {key t} ht => ?back) fun {target source} hlends hkeep => ?lenders
  case kept =>
    obtain ⟨s', hs', hsystem⟩ := hkeep
    rw [hget, Option.some.injEq] at hs'
    subst hs'
    exact ⟨s, by rw [get?_invalidateAll, hget, Option.map_some, invalidate_of_isSystem hsystem], .refl s⟩
  case back =>
    rw [get?_invalidateAll] at ht
    obtain ⟨s, hs, rfl⟩ := Option.map_eq_some_iff.1 ht
    cases hsystem : s.isSystem with
    | true => exact Or.inr ⟨⟨s, hs, hsystem⟩, s, hs⟩
    | false => exact Or.inl ⟨(isSystem_invalidate s).trans hsystem, canonical_invalidate hsystem⟩
  case lenders =>
    obtain ⟨s, hs, hsystem⟩ := hkeep
    obtain ⟨s', -, -, hs', hnot, -⟩ := h.of_lends hlends
    rw [hs, Option.some.injEq] at hs'
    subst hs'
    exact absurd hsystem (by simp [hnot])

end SymbolTable

end StoryCheck
