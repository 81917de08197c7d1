import StoryCheck.Proofs.Symbol.Justified
import StoryCheck.Proofs.Syntax.Sketch

/-!
# Justified types over whole runs

Resolution writes to flagged symbols only, and nobody takes a type from one of these. That makes
both things that a walk may do harmless: giving up breaks no account, and adopting a definition adds
edges of lending into a symbol that lends to none, so it closes no circle.

* **`Sound.modify`**, **`Sound.adopt`** — the two ways in which a walk ends.
* **`sound_resolve`**, **`Sound.update`** — from walks to updates.
* **`resolved_symbols_are_justified`** — what holds in every state that a run of steps reaches.
-/

namespace StoryCheck

open Syntax

namespace SymbolTable

variable {a b table : SymbolTable} {key other target source : SymbolKey} {s t : StorySymbol}

/-! ## Resolution

A walk ends by writing to the symbol that is walked. It is flagged until then, so it lends to none
and writing to it breaks no other account. -/

/-- A flagged symbol is not one of the header. -/
theorem Sound.not_declared (h : table.Sound) (hget : table.get? key = some s)
    (hflag : s.needsUpdate = true) : s.isSystem = false := by
  cases hsystem : s.isSystem with
  | false => rfl
  | true => exact absurd hflag (by simp [(h.declared hget hsystem).2.1])

/-- Taking the verdict from a flagged symbol is sound. -/
theorem Sound.modify (h : table.Sound) {f : StorySymbol → StorySymbol}
    (hkey : ∀ s, (f s).key = s.key) (hget : table.get? key = some s) (hflag : s.needsUpdate = true)
    (hsystem : (f s).isSystem = s.isSystem) (hcanonical : (f s).canonical = none) :
    (table.modify key f).Sound := by
  have hnodup : (table.modify key f).keys.Nodup := by
    rw [keys_modify hkey]
    exact h.nodup
  refine h.edit hnodup (· ≠ key) (fun {other t} hne ht => ?_)
    (fun {other t} ht => ?_) fun {target source} hlends _ => ?_
  · exact ⟨t, (get?_modify_of_ne hkey hne).trans ht, .refl t⟩
  · rw [get?_modify hkey] at ht
    split at ht
    · rw [hget, Option.map_some, Option.some.injEq] at ht
      subst ht
      exact Or.inl ⟨hsystem.trans (h.not_declared hget hflag), hcanonical⟩
    · next hne => exact Or.inr ⟨hne, t, ht⟩
  · rintro rfl
    exact h.not_lends hget hflag hlends

/-- A relation between parameters and found types carries over to the parameters that are made of
both. -/
theorem forall₂_zipIdx {P : DefinitionParameter → ValueType × Option ParameterRef → Prop}
    {ps : List DefinitionParameter} {types : List (ValueType × Option ParameterRef)}
    (flow : Nat → Option Flow) (k : Nat) (h : List.Forall₂ P ps types) :
    List.Forall₂ (fun p (q : SymbolParameter) => P p (q.type, q.origin)) ps
      (((types.zip (ps.map (·.name))).zipIdx k).map fun (((type, origin), name), position) =>
        SymbolParameter.mk name type (flow position) origin) := by
  -- The position is counted on, so that it is arbitrary.
  induction h generalizing k with
  | nil => exact .nil
  | cons hfirst _ ih => exact .cons hfirst (ih (k + 1))

/-- The parameters of a symbol that adopts a definition, next to those of the definition. -/
theorem forall₂_adopt {P : DefinitionParameter → ValueType × Option ParameterRef → Prop}
    {d : SymbolDefinition} {types : List (ValueType × Option ParameterRef)} (index : Nat)
    (h : List.Forall₂ P d.parameters types) :
    List.Forall₂ (fun p (q : SymbolParameter) => P p (q.type, q.origin)) d.parameters
      (s.adopt index d types).parameters :=
  forall₂_zipIdx (s.statedFlow · (some d)) 0 h

/-- What offers a type goes on doing so while the others evolve. -/
theorem Offers.evolves {ref : ParameterRef} {type : ValueType} (h : a.Offers ref type)
    (hevolves : a.Evolves b) : b.Offers ref type := by
  obtain ⟨s, p, hget, hsettled, hrest⟩ := h
  exact ⟨s, p, hevolves.get?_of_unflagged hget hsettled, hsettled, hrest⟩

/-- **Adopting is sound**, if the types are those that the definition's parameters give. -/
theorem Sound.adopt (h : table.Sound) (hget : table.get? key = some s)
    (hflag : s.needsUpdate = true) {weights : Weights} {index : Nat} {d : SymbolDefinition}
    {types : List (ValueType × Option ParameterRef)}
    (hcandidate : (index, d) ∈ s.candidates weights) (hpartial : d.isPartial = false)
    (hgives : List.Forall₂ table.Gives d.parameters types) :
    (table.modify key fun s => s.adopt index d types).Sound := by
  have hkey : ∀ s : StorySymbol, (s.adopt index d types).key = s.key := fun _ => rfl
  have hsystem := h.not_declared hget hflag
  obtain ⟨hd, hwrite⟩ := StorySymbol.mem_candidates.1 hcandidate
  have hself : (table.modify key fun s => s.adopt index d types).get? key
      = some (s.adopt index d types) := by
    rw [get?_modify_self hkey, hget]
    rfl
  have hother {other} (hne : other ≠ key) :
      (table.modify key fun s => s.adopt index d types).get? other = table.get? other :=
    get?_modify_of_ne hkey hne
  -- The symbol itself is flagged, so whoever offers a type is another one and stays as it is.
  have hne {ref type} (hoffer : table.Offers ref type) : ref.symbol ≠ key := by
    obtain ⟨t, -, ht, hsettled, -⟩ := hoffer
    rintro heq
    rw [heq, hget] at ht
    cases ht
    exact absurd hflag (by simp [hsettled])
  have hoffers {ref type} (hoffer : table.Offers ref type) :
      (table.modify key fun s => s.adopt index d types).Offers ref type := by
    have hsymbol := hne hoffer
    obtain ⟨t, p, ht, hrest⟩ := hoffer
    exact ⟨t, p, (hother hsymbol).trans ht, hrest⟩
  have hjustifies : (table.modify key fun s => s.adopt index d types).Justifies
      (s.adopt index d types) index d := by
    refine ⟨rfl, hd, hpartial, hwrite, (forall₂_adopt index hgives).imp fun p q hp => ?_⟩
    exact Gives.mono hp fun ref type _ => hoffers
  refine ⟨?nodup, fun {other t} ht ht_system => ?declared, fun {other t index'} ht ht_system hcanonical => ?adopted,
    ?wellFounded⟩
  case nodup =>
    rw [keys_modify hkey]
    exact h.nodup
  case declared =>
    by_cases heq : other = key
    · rw [heq, hself, Option.some.injEq] at ht
      subst ht
      exact absurd ht_system (by simp [StorySymbol.adopt, hsystem])
    · rw [hother heq] at ht
      exact h.declared ht ht_system
  case adopted =>
    by_cases heq : other = key
    · rw [heq, hself, Option.some.injEq] at ht
      subst ht
      cases hcanonical
      exact ⟨rfl, rfl, d, hjustifies⟩
    · rw [hother heq] at ht
      obtain ⟨hdead, hsettled, d', hjustifies'⟩ := h.adopted ht ht_system hcanonical
      refine ⟨hdead, hsettled, d', { hjustifies' with backed := ?_ }⟩
      exact hjustifies'.backed.imp fun p q hp => Gives.mono hp fun ref type _ => hoffers
  case wellFounded =>
    refine h.wellFounded.of_fresh key (fun target source hne hlends => ?_) fun source hlends => ?_
    · obtain ⟨t, d', ht, hrest⟩ := hlends
      exact ⟨t, d', (hother hne).symm.trans ht, hrest⟩
    · -- The definition that is adopted refers to settled symbols only, so not to its own.
      obtain ⟨t, d', ht, hcanonical, href⟩ := hlends
      by_cases heq : source = key
      · rw [heq, hself, Option.some.injEq] at ht
        subst ht
        rw [hjustifies.canonicalDefinition?, Option.some.injEq] at hcanonical
        subst hcanonical
        obtain ⟨ref, type, hsymbol, hoffer⟩ := offers_of_gives hgives href
        exact hne hoffer hsymbol
      · exact h.not_lends hget hflag ⟨t, d', (hother heq).symm.trans ht, hcanonical, href⟩

end SymbolTable

namespace Resolving

open SymbolTable

/-- A reference that was found typed is offered. -/
theorem offers_of_typed {table : SymbolTable} {ref : ParameterRef}
    (hsettled : ∃ s, table.get? ref.symbol = some s ∧ s.needsUpdate = false
      ∧ s.resolution = .resolved)
    (hknown : (table.typeAt ref).isKnown = true) : table.Offers ref (table.typeAt ref) := by
  obtain ⟨s, hget, hflag, hresolved⟩ := hsettled
  cases hp : s.parameters[ref.index]? with
  | none => simp [typeAt, hget, hp, ValueType.isKnown] at hknown
  | some p =>
    have htype : table.typeAt ref = p.type := by simp [typeAt, hget, hp]
    exact ⟨s, p, hget, hflag, hresolved, hp, htype.symm, hknown⟩

/-- The types that were found for a definition are those that its parameters give. What was found
early is still offered at the end: settled symbols do not change. -/
theorem Completes.gives {R : SymbolKey → Sweep → Resolution → Sweep → Prop}
    {chain : List SymbolKey} {parameters : List DefinitionParameter} {σ σ' : Sweep}
    {types : List (ValueType × Option ParameterRef)}
    (hR : ∀ key σ verdict σ', R key σ verdict σ' → Attempt chain key σ verdict σ')
    (h : Completes R parameters σ (.ok types) σ') :
    List.Forall₂ σ'.table.Gives parameters types := by
  generalize hc : Except.ok types = c at h
  induction h generalizing types with
  | nil =>
    cases hc
    exact .nil
  | explicit hsource _ ih =>
    obtain ⟨rest, rfl, rfl⟩ := map_eq_ok.1 hc.symm
    exact .cons (by simp [Gives, hsource]) (ih rfl)
  | unknown => cases hc
  | typed hsource hattempt hknown hrest ih =>
    obtain ⟨rest, rfl, rfl⟩ := map_eq_ok.1 hc.symm
    have hoffer := offers_of_typed ((hR _ _ _ _ hattempt).resolved rfl) hknown
    have hevolves := (hrest.stays fun _ _ _ _ h => (hR _ _ _ _ h).toStays).evolves
    exact .cons (by simpa [Gives, hsource] using hoffer.evolves hevolves) (ih rfl)
  | untyped => cases hc
  | failed => cases hc

/-- An attempt on a symbol keeps a table sound. -/
theorem sound_resolve (weights : Weights) (room : Nat) (key : SymbolKey) (σ : Sweep)
    (hroom : σ.table.keys.length ≤ room) (h : σ.table.Sound) :
    ((resolve weights room [] key).run σ).2.table.Sound := by
  -- The walks below come first. What they leave is sound, and the symbol itself has not been
  -- written to.
  refine (attempt_induction weights
    (motive := fun _ _ σ _ σ' => σ.table.Sound → σ'.table.Sound)
    ?known ?adopted ?pending ?blocked ?undefined ?dead room key σ hroom).2 h
  case known => exact fun _ h => h
  case adopted =>
    intro chain key σ s σ' index d types failures hwalked h
    have h' : σ'.table.Sound :=
      hwalked.searches.keep (P := fun σ => σ.table.Sound) (fun _ _ _ _ hR => hR.2) h
    obtain ⟨hcandidate, hpartial, σ₁, hcompletes⟩ := hwalked.searches.found_eq
    exact h'.adopt hwalked.get?_end hwalked.flagged hcandidate hpartial
      (hcompletes.gives fun _ _ _ _ hR => hR.1)
  case pending =>
    intro chain key σ s σ' failures hwalked _ h
    have h' : σ'.table.Sound :=
      hwalked.searches.keep (P := fun σ => σ.table.Sound) (fun _ _ _ _ hR => hR.2) h
    rw [Sweep.table_remember]
    exact h'.modify (fun _ => rfl) hwalked.get?_end hwalked.flagged rfl rfl
  case blocked =>
    intro chain key σ s σ' failures hwalked _ _ _ h
    exact hwalked.searches.keep (P := fun σ => σ.table.Sound) (fun _ _ _ _ hR => hR.2) h
  case undefined =>
    intro chain key σ s hwalk _ _ h
    obtain ⟨hget, hflag, -⟩ := toWalk_eq_ok_iff.1 hwalk
    exact h.modify (fun _ => rfl) hget hflag rfl rfl
  case dead =>
    intro chain key σ s σ' failures hwalked _ _ _ h
    have h' : σ'.table.Sound :=
      hwalked.searches.keep (P := fun σ => σ.table.Sound) (fun _ _ _ _ hR => hR.2) h
    exact h'.modify (fun _ => rfl) hwalked.get?_end hwalked.flagged rfl rfl

end Resolving

namespace SymbolTable

variable {table : SymbolTable} {key : SymbolKey} {s : StorySymbol}

/-- A sweep keeps a table sound. -/
theorem Sound.sweep (h : table.Sound) (weights : Weights) : (table.sweep weights).table.Sound := by
  refine (sweep_induction table weights (P := fun σ => σ.table.Sound) (Q := fun _ _ => True) h
    fun key σ hroom hP => ?_).1
  exact ⟨Resolving.sound_resolve weights table.size key σ hroom hP, trivial, fun _ _ => trivial⟩

/-- Taking off the flags is sound: who is still flagged has no verdict. -/
theorem Sound.clearFlags (h : table.Sound) : table.clearFlags.Sound := by
  have hkey : ∀ s : StorySymbol, ({ s with needsUpdate := false } : StorySymbol).key = s.key :=
    fun _ => rfl
  have hnodup : table.clearFlags.keys.Nodup := by
    rw [SymbolTable.clearFlags, keys_map hkey]
    exact h.nodup
  -- Settled symbols are kept as they are. A flagged one has adopted nothing, so that no types rest
  -- on it.
  refine h.edit hnodup (fun key => ∃ s, table.get? key = some s ∧ s.needsUpdate = false)
    (fun {key s} hkeep hget => ?kept) (fun {key t} ht => ?back) fun {target source} hlends _ => ?lenders
  case kept =>
    obtain ⟨s', hs', hsettled⟩ := hkeep
    rw [hget, Option.some.injEq] at hs'
    subst hs'
    refine ⟨s, ?_, .refl s⟩
    rw [get?_clearFlags, hget, Option.map_some, ← hsettled]
  case back =>
    rw [get?_clearFlags] at ht
    obtain ⟨s, hs, rfl⟩ := Option.map_eq_some_iff.1 ht
    cases hflag : s.needsUpdate with
    | false => exact Or.inr ⟨⟨s, hs, hflag⟩, s, hs⟩
    | true =>
      have hsystem := h.not_declared hs hflag
      refine Or.inl ⟨hsystem, ?_⟩
      cases hcanonical : s.canonical with
      | none => rfl
      | some index => exact absurd hflag (by simp [(h.adopted hs hsystem hcanonical).2.1])
  case lenders =>
    obtain ⟨-, -, -, -, -, -, ref, type, rfl, s, p, hs, hsettled, -⟩ := h.of_lends hlends
    exact ⟨s, hs, hsettled⟩

/-- An update keeps a table sound. -/
theorem Sound.update (h : table.Sound) (weights : Weights) : (table.update weights).1.Sound :=
  ((h.sweep weights).sweep weights).clearFlags

/-! ## Runs

A run is a row of steps: goals come and go, everything is taken back, updates are made. A table that
starts from declarations stays sound all along. -/

/-- A table of declarations alone is sound. -/
theorem sound_declareAll (goal : String) (types : TypeRegistry) (declarations : List Declaration) :
    (declareAll {} goal types declarations).Sound := by
  obtain ⟨hnodup, hdeclared⟩ := declareAll_spec goal types declarations
  refine ⟨hnodup, fun hget _ => (hdeclared hget).2, fun hget hsystem _ => ?_,
    ⟨fun source => ⟨source, ?_⟩⟩⟩
  · exact absurd (hdeclared hget).1 (by simp [hsystem])
  · rintro target ⟨s, d, hget, hcanonical, href⟩
    obtain ⟨index, -, hd⟩ := Option.bind_eq_some_iff.1 hcanonical
    rw [(hdeclared hget).2.2.2 d (List.mem_of_getElem? hd)] at href
    cases href

end SymbolTable

/-- What may be done to a table. -/
inductive TableStep where
  | addGoal (goal : String) (types : TypeRegistry) (tree : Goal)
  | removeGoal (goal : String)
  | prune
  | invalidateAll
  | update (weights : Weights)

namespace TableStep

/-- Does a step. -/
def apply (table : SymbolTable) : TableStep → SymbolTable
  | addGoal goal types tree => (table.addGoal goal types tree).1
  | removeGoal goal => table.removeGoal goal
  | prune => table.prune
  | invalidateAll => table.invalidateAll
  | update weights => (table.update weights).1

/-- Each step keeps a table sound. -/
theorem sound_apply {table : SymbolTable} (h : table.Sound) (step : TableStep) :
    (apply table step).Sound := by
  -- One case for each kind of step.
  cases step with
  | addGoal goal types tree => exact h.addGoal goal types tree
  | removeGoal goal => exact h.removeGoal goal
  | prune => exact h.prune
  | invalidateAll => exact h.invalidateAll
  | update weights => exact h.update weights

/-- So does a run. -/
theorem sound_run {table : SymbolTable} (h : table.Sound) (steps : List TableStep) :
    (steps.foldl apply table).Sound := by
  induction steps generalizing table with
  | nil => exact h
  | cons step rest ih => exact ih (sound_apply h step)

end TableStep

namespace SymbolTable

/-- **Types are justified in every state.** Start from the declarations of a header and do any
steps in any order: what is resolved, undeclared and not flagged has a true account of its types,
and who takes types from whom is well-founded. -/
theorem resolved_symbols_are_justified (header : String) (types : TypeRegistry)
    (declarations : List Declaration) (steps : List TableStep) :
    let table := steps.foldl TableStep.apply (declareAll {} header types declarations)
    (∀ s ∈ table.symbols, s.isSystem = false → s.resolution = .resolved →
      s.needsUpdate = false → ∃ index d, table.Justifies s index d)
      ∧ WellFounded table.Lends := by
  intro table
  have h : table.Sound := TableStep.sound_run (sound_declareAll header types declarations) steps
  exact ⟨fun s hmem hsystem hresolved _ => h.justified (get?_of_mem h.nodup hmem) hsystem hresolved,
    h.wellFounded⟩

/-- A database that is written by a rule on another one, which a section fills. -/
theorem derived_database_is_justified :
    let table := [TableStep.addGoal "Seed" {} (Sketch.goal [Sketch.call 1 "DB_X" [.integer 7]] [] []),
        .addGoal "Derived" {} (Sketch.goal []
          [Sketch.rule (Sketch.call 1 "DB_X" [.name "_x"]) [] [Sketch.call 2 "DB_Y" [.name "_x"]]] []),
        .update []].foldl TableStep.apply (declareAll {} "story_header" {} [])
    ∃ s ∈ table.symbols, s.key = ⟨"DB_Y", 1⟩ ∧ ∃ index d, table.Justifies s index d := by
  intro table
  have hverdict : (table.get? ⟨"DB_Y", 1⟩).map (fun s => (s.isSystem, s.resolution, s.needsUpdate))
      = some (false, .resolved, false) := by cbv
  obtain ⟨s, hget, hs⟩ := Option.map_eq_some_iff.1 hverdict
  simp only [Prod.mk.injEq] at hs
  obtain ⟨hsystem, hresolved, hsettled⟩ := hs
  have hmem := mem_symbols_of_get? hget
  exact ⟨s, hmem, key_of_get? hget,
    (resolved_symbols_are_justified "story_header" {} [] _).1 s hmem hsystem hresolved hsettled⟩

end SymbolTable

end StoryCheck
