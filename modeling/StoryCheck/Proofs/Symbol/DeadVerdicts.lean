import StoryCheck.Proofs.Symbol.Contributions
import StoryCheck.Proofs.Symbol.Derivable
import StoryCheck.Proofs.Symbol.JustifiedRuns

/-!
# Dead verdicts

A symbol is given up for good when each of its candidates waits for a symbol that is dead, or for one
that is blocked because it stands on the chain. Nothing that is derivable is ever given up so.

## The argument

* A blocked answer below a chain says that the symbol is not derivable without the chain, a dead
  answer that it is not derivable at all (`RulesOut`).
* If all candidates of a symbol on top of a chain wait for such symbols, it is not derivable without
  the chain either: a derivation need not come back to the symbol itself
  (`Derivable.step_without`). At the root the chain is empty.
* An edit may make symbols derivable only among those that it takes back (`Spares.addGoal`), and all
  other edits make nothing derivable.
-/

namespace StoryCheck

open Syntax

namespace SymbolTable

variable {table source a b : SymbolTable} {key other : SymbolKey} {chain : List SymbolKey}
  {s t : StorySymbol} {d : SymbolDefinition}

/-- No symbol that was given up for good is derivable from what `source` says. -/
def Spares (table source : SymbolTable) : Prop :=
  ∀ key s, table.get? key = some s → s.isDead = true → ¬ source.Derivable key

/-- What an answer for a symbol below a chain says about derivations. -/
def RulesOut (source : SymbolTable) (chain : List SymbolKey) (key : SymbolKey) : Resolution → Prop
  | .dead => ¬ source.Derivable key
  | .blocked => ¬ (source.without chain).Derivable key
  | .resolved | .pending => True

theorem Spares.modify {f : StorySymbol → StorySymbol} (h : table.Spares source)
    (hkey : ∀ s, (f s).key = s.key)
    (hdead : ∀ s, table.get? key = some s → (f s).isDead = true →
      s.isDead = true ∨ ¬ source.Derivable key) :
    (table.modify key f).Spares source := by
  intro other t ht ht_dead
  rw [get?_modify hkey] at ht
  split at ht
  · next heq =>
    subst heq
    obtain ⟨s, hs, rfl⟩ := Option.map_eq_some_iff.1 ht
    rcases hdead s hs ht_dead with hs_dead | hnot
    · exact h _ s hs hs_dead
    · exact hnot
  · exact h other t ht ht_dead

end SymbolTable

/-! ## Attempts

A symbol is given up if all its candidates refer to something dead or blocked. A blocked one is on
the chain, and a derivation that goes through the chain would come back to the symbol, so that a
shorter one does without. -/

namespace Resolving

open SymbolTable

variable {source : SymbolTable} {key other : SymbolKey} {chain : List SymbolKey}
  {σ σ' : Sweep} {s : StorySymbol} {verdict : Resolution} {weights : Weights}
  {R : SymbolKey → Sweep → Resolution → Sweep → Prop}

/-- What kept one candidate from being complete is not forgotten over the next ones. -/
theorem Searches.failures_mono {candidates : List (Nat × SymbolDefinition)}
    {failures failures' : Failures} {found : Option Adoption}
    (h : Searches R candidates failures σ found failures' σ') :
    (failures.pending = true → failures'.pending = true)
      ∧ (failures.blocked = true → failures'.blocked = true) := by
  induction h with
  | exhausted | complete => exact ⟨id, id⟩
  | partly _ _ ih => exact ⟨fun _ => ih.1 rfl, ih.2⟩
  | @incomplete _ _ _ failures _ _ _ _ _ why _ _ _ ih =>
    refine ⟨fun h => ih.1 ?_, fun h => ih.2 ?_⟩
    · cases why <;> simp [Failures.add, h]
    · cases why <;> simp [Failures.add, h]

/-- A definition with sources for all parameters is incomplete because of a symbol that it refers
to. -/
theorem Completes.failed_reference {P : Sweep → Prop}
    (hR : ∀ key σ verdict σ', R key σ verdict σ' → P σ → P σ')
    {parameters : List DefinitionParameter} {why : Resolution}
    (h : Completes R parameters σ (.error why) σ') (hP : P σ) (hwhy : why ≠ .pending) :
    ∃ p ∈ parameters, ∃ ref, p.source = .reference ref
      ∧ why ≠ .resolved ∧ ∃ σ₁ σ₂, P σ₁ ∧ R ref.symbol σ₁ why σ₂ := by
  generalize hc : Except.error why = c at h
  have hmap {c : Completion} {x : ValueType × Option ParameterRef}
      (h : Except.error why = c.map (x :: ·)) : Except.error why = c := by
    cases c with
    | ok types => cases h
    | error other =>
      cases h
      rfl
  -- On the way to the parameter that fails each reference before it has kept `P`.
  induction h with
  | nil => cases hc
  | unknown | untyped =>
    cases hc
    exact absurd rfl hwhy
  | explicit _ _ ih =>
    obtain ⟨p, hp, hfailed⟩ := ih hP (hmap hc)
    exact ⟨p, List.mem_cons_of_mem _ hp, hfailed⟩
  | typed _ hattempt _ _ ih =>
    obtain ⟨p, hp, hfailed⟩ := ih (hR _ _ _ _ hattempt hP) (hmap hc)
    exact ⟨p, List.mem_cons_of_mem _ hp, hfailed⟩
  | failed hsource hattempt hresolved =>
    cases hc
    exact ⟨_, List.mem_cons_self, _, hsource, hresolved, _, _, hP, hattempt⟩

/-- Where nothing was found and nothing is pending, each candidate refers to a symbol that is dead or
blocked. -/
theorem Searches.failed_references {P : Sweep → Prop}
    (hR : ∀ key σ verdict σ', R key σ verdict σ' → P σ → P σ')
    {candidates : List (Nat × SymbolDefinition)} {failures failures' : Failures}
    (h : Searches R candidates failures σ none failures' σ') (hP : P σ)
    (hpending : failures'.pending = false) :
    ∀ candidate ∈ candidates, ∃ other ∈ candidate.2.references, ∃ verdict σ₁ σ₂,
      P σ₁ ∧ R other σ₁ verdict σ₂
        ∧ (verdict = .dead ∨ (verdict = .blocked ∧ failures'.blocked = true)) := by
  generalize hfound : none = found at h
  induction h with
  | exhausted => nofun
  | complete => cases hfound
  | partly _ hrest => exact absurd (hrest.failures_mono.1 rfl) (by simp [hpending])
  | @incomplete _ d _ _ _ _ _ _ _ why _ htypes hrest ih =>
    intro candidate hmem
    rcases List.mem_cons.1 hmem with rfl | hmem
    · have hwhy : why ≠ .pending := by
        rintro rfl
        exact absurd (hrest.failures_mono.1 rfl) (by simp [hpending])
      obtain ⟨p, hp, ref, hsource, hresolved, σ₁, σ₂, hP₁, hattempt⟩ :=
        htypes.failed_reference hR hP hwhy
      refine ⟨ref.symbol, SymbolDefinition.mem_references.2 ⟨p, hp, ref, hsource, rfl⟩, why, σ₁, σ₂,
        hP₁, hattempt, ?_⟩
      cases why with
      | dead => exact Or.inl rfl
      | blocked => exact Or.inr ⟨rfl, hrest.failures_mono.2 rfl⟩
      | resolved => exact absurd rfl hresolved
      | pending => exact absurd rfl hwhy
    · exact ih (htypes.keep hR hP) hpending hfound candidate hmem

/-- What holds of a sweep while no derivable symbol is given up. -/
structure SparesSoFar (source : SymbolTable) (σ : Sweep) : Prop where
  evolves : source.Evolves σ.table
  spares : σ.table.Spares source

/-- What is shown of each attempt. -/
def Judges (source : SymbolTable) (chain : List SymbolKey) (key : SymbolKey) (σ : Sweep)
    (verdict : Resolution) (σ' : Sweep) : Prop :=
  SparesSoFar source σ → SparesSoFar source σ' ∧ source.RulesOut chain key verdict

section Walk

variable {found : Option Adoption} {failures : Failures}

/-- A change of the walked symbol that gives it up only if it is not derivable. -/
theorem SparesSoFar.modify {f : StorySymbol → StorySymbol} (h : SparesSoFar source σ)
    (hget : σ.table.get? key = some s) (hkey : ∀ s, (f s).key = s.key) (hf : s.Evolves (f s))
    (hdead : (f s).isDead = true → s.isDead = true ∨ ¬ source.Derivable key) :
    SparesSoFar source (σ.modify key f) where
  evolves := h.evolves.trans (.modify hkey fun t ht => by
    rw [hget, Option.some.injEq] at ht
    exact ht ▸ hf)
  spares := h.spares.modify hkey fun t ht => by
    rw [hget, Option.some.injEq] at ht
    exact ht ▸ hdead

theorem SparesSoFar.of_table (h : SparesSoFar source σ) (htable : σ'.table = σ.table) :
    SparesSoFar source σ' where
  evolves := htable ▸ h.evolves
  spares := htable ▸ h.spares

/-- The walked symbol stands in the source, with the same definitions, and is not declared. -/
theorem exists_source (hsource : source.Sound) (h : SparesSoFar source σ)
    (hget : σ.table.get? key = some s) (hflag : s.needsUpdate = true) :
    ∃ t, source.get? key = some t ∧ t.isSystem = false ∧ t.evidence = s.evidence := by
  obtain ⟨t, ht, hts⟩ := h.evolves.exists_before hget
  have ht_flag : t.needsUpdate = true := by
    cases hts with
    | same => exact hflag
    | fellBack hflag => exact hflag
    | settled hflag _ _ _ => exact hflag
  exact ⟨t, ht, hsource.not_declared ht ht_flag, hts.evidence_eq.symm⟩

/-- The walk of a symbol keeps the sweep from giving up what is derivable. -/
theorem Walked.sparesSoFar
    (hwalked : Walked (fun other σ verdict σ' => Attempt (key :: chain) other σ verdict σ'
      ∧ Judges source (key :: chain) other σ verdict σ') weights chain key σ s found failures σ')
    (h : SparesSoFar source σ) : SparesSoFar source σ' :=
  hwalked.searches.keep (P := SparesSoFar source) (fun _ _ _ _ hR hP => (hR.2 hP).1)
    (h.of_table rfl)

/-- **If all candidates wait for dead or blocked symbols, there is no derivation** that does without
the chain, and none at all if no symbol was blocked. -/
theorem Walked.not_derivable (hsource : source.Sound)
    (hwalked : Walked (fun other σ verdict σ' => Attempt (key :: chain) other σ verdict σ'
      ∧ Judges source (key :: chain) other σ verdict σ') weights chain key σ s none failures σ')
    (h : SparesSoFar source σ) (hpending : failures.pending = false) :
    ¬ (source.without chain).Derivable key
      ∧ (failures.blocked = false → ¬ source.Derivable key) := by
  obtain ⟨t, ht, ht_system, hevidence⟩ := exists_source hsource h hwalked.get?_eq hwalked.flagged
  -- Each definition that the symbol proposes was tried and has a reference that failed; either its
  -- verdict was for good, or it was blocked by the chain.
  have hfailed {d} (hproposes : t.Proposes d) : ∃ other ∈ d.references,
      ¬ source.Derivable other ∨ (failures.blocked = true
        ∧ ¬ (source.without (key :: chain)).Derivable other) := by
    obtain ⟨index, hmem⟩ := (hproposes.of_evidence hevidence).exists_candidate weights
    obtain ⟨other, href, verdict, σ₁, σ₂, hP₁, hattempt, hverdict⟩ :=
      hwalked.searches.failed_references (P := SparesSoFar source)
        (fun _ _ _ _ hR hP => (hR.2 hP).1) (h.of_table rfl) hpending _ hmem
    have hrules := (hattempt.2 hP₁).2
    rcases hverdict with rfl | ⟨rfl, hblocked⟩
    · exact ⟨other, href, Or.inl hrules⟩
    · exact ⟨other, href, Or.inr ⟨hblocked, hrules⟩⟩
  -- A derivation without the chain may be taken not to come back to the key, which settles the
  -- blocked references too.
  refine ⟨fun hderivable => ?_, fun hblocked hderivable => ?_⟩
  · obtain ⟨d, hproposes, hreferences⟩ := hderivable.step_without ht ht_system
    obtain ⟨other, href, hnot | ⟨-, hnot⟩⟩ := hfailed hproposes
    · exact hnot (hreferences other href).of_without
    · exact hnot (hreferences other href)
  · cases hderivable with
    | declared ht' ht'_system =>
      rw [ht, Option.some.injEq] at ht'
      exact absurd ht'_system (by simp [← ht', ht_system])
    | inferred ht' hproposes hreferences =>
      rw [ht, Option.some.injEq] at ht'
      obtain ⟨other, href, hnot | ⟨hblocked', -⟩⟩ := hfailed (ht' ▸ hproposes)
      · exact hnot (hreferences other href)
      · exact absurd hblocked' (by simp [hblocked])

end Walk

/-- An attempt at the root gives up nothing that is derivable. -/
theorem sparesSoFar_resolve (hsource : source.Sound) (weights : Weights) (room : Nat)
    (key : SymbolKey) (σ : Sweep) (hroom : σ.table.keys.length ≤ room)
    (h : SparesSoFar source σ) :
    SparesSoFar source ((resolve weights room [] key).run σ).2 := by
  refine ((attempt_induction weights (motive := Judges source)
    ?known ?adopted ?pending ?blocked ?undefined ?dead room key σ hroom).2 h).1
  case known =>
    intro chain key σ verdict hwalk h
    refine ⟨h, ?_⟩
    obtain ⟨hnone, rfl⟩ | ⟨s, hget, hcases⟩ := toWalk_eq_error hwalk
    · -- A symbol that is not there is not derivable.
      intro hderivable
      have hnone' := h.evolves.get?_eq_none_iff.1 hnone
      cases hderivable with
      | declared hget _ | inferred hget _ _ => simp [hnone'] at hget
    · obtain ⟨-, rfl⟩ | ⟨-, -, rfl⟩ | ⟨-, -, hmem, rfl⟩ := hcases
      · cases hdead : s.isDead with
        | true =>
          rw [StorySymbol.resolution, hdead, if_pos rfl]
          exact h.spares key s hget hdead
        | false =>
          rw [StorySymbol.resolution, hdead, if_neg Bool.false_ne_true]
          split <;> trivial
      · trivial
      · exact not_derivable_without hmem
  case adopted =>
    intro chain key σ s σ' index d types failures hwalked h
    have halive : (s.adopt index d types).isDead = false := rfl
    refine ⟨(hwalked.sparesSoFar h).modify hwalked.get?_end (fun _ => rfl) hwalked.evolves_adopt
      fun hdead => ?_, trivial⟩
    rw [halive] at hdead
    cases hdead
  case pending =>
    intro chain key σ s σ' failures hwalked _ h
    refine ⟨((hwalked.sparesSoFar h).modify (f := .fallBack) hwalked.get?_end (fun _ => rfl)
      (.fellBack hwalked.flagged) Or.inl).of_table (Sweep.table_remember _ _ _), trivial⟩
  case blocked =>
    intro chain key σ s σ' failures hwalked hpending _ _ h
    exact ⟨hwalked.sparesSoFar h, (hwalked.not_derivable hsource h hpending).1⟩
  case undefined =>
    intro chain key σ s hwalk _ _ h
    obtain ⟨hget, hflag, -, -⟩ := toWalk_eq_ok_iff.1 hwalk
    refine ⟨SparesSoFar.modify (f := .waitForDefinition) (h.of_table rfl) hget (fun _ => rfl)
      (.settled hflag rfl rfl fun _ h => h.waitForDefinition) Or.inl, trivial⟩
  case dead =>
    intro chain key σ s σ' failures hwalked hpending hroot _ h
    -- Symbols may be blocked at the root only, and there the chain leaves nothing out.
    have hnot : ¬ source.Derivable key := by
      obtain ⟨hchain, hunblocked⟩ := hwalked.not_derivable hsource h hpending
      cases hblocked : failures.blocked with
      | false => exact hunblocked hblocked
      | true =>
        rw [hroot hblocked, without_nil] at hchain
        exact hchain
    exact ⟨(hwalked.sparesSoFar h).modify (f := .markDead) hwalked.get?_end (fun _ => rfl)
      (.settled hwalked.flagged rfl rfl fun _ h => h.markDead) fun _ => Or.inr hnot, hnot⟩

end Resolving

/-! ## Updates and edits

A sweep starts with an empty chain, so that nothing is blocked at the root. Edits take back the
verdicts of all that they may make derivable. -/

namespace SymbolTable

variable {table source a b : SymbolTable} {key : SymbolKey} {s t : StorySymbol}

theorem Spares.sweep (hsource : source.Sound) (hevolves : source.Evolves table)
    (h : table.Spares source) (weights : Weights) :
    (table.sweep weights).table.Spares source := by
  refine (sweep_induction table weights (P := Resolving.SparesSoFar source)
    (Q := fun _ _ => True) ⟨hevolves, h⟩ fun key σ hroom hP => ?_).1.spares
  exact ⟨Resolving.sparesSoFar_resolve hsource weights table.size key σ hroom hP, trivial,
    fun _ _ => trivial⟩

/-- **An update gives up nothing that is derivable.** -/
theorem Spares.update (hsource : table.Sound) (h : table.Spares table) (weights : Weights) :
    (table.update weights).1.Spares (table.update weights).1 := by
  have hswept := Spares.sweep hsource (table.evolves_sweep weights)
    (Spares.sweep hsource (.refl table) h weights) weights
  intro key s hget hdead hderivable
  rw [get?_update] at hget
  obtain ⟨t, ht, rfl⟩ := Option.map_eq_some_iff.1 hget
  -- Taking off the flags changes no definition.
  refine hswept key t ht hdead (Derivable.of_evolves ?_ (table.evolves_sweeps weights))
  refine hderivable.mono fun hget => ?_
  rw [get?_update] at hget
  obtain ⟨t, ht, rfl⟩ := Option.map_eq_some_iff.1 hget
  exact ⟨t, ht, id, List.Subset.refl _⟩

theorem isDead_revised {touched reached : Bool} (hsystem : s.isSystem = false)
    (hdead : (s.revised touched reached).isDead = true) : reached = false ∧ s.isDead = true := by
  rw [StorySymbol.revised_eq hsystem] at hdead
  cases reached with
  | true => cases hdead
  | false => exact ⟨rfl, hdead⟩

/-- An edit that makes nothing derivable and gives nothing up. -/
theorem Spares.shrink (h : a.Spares a)
    (hsub : ∀ {key t}, b.get? key = some t → ∃ s, a.get? key = some s
      ∧ (t.isSystem = true → s.isSystem = true) ∧ t.definitions ⊆ s.definitions
      ∧ (t.isDead = true → s.isDead = true)) : b.Spares b := by
  intro key t ht ht_dead hderivable
  obtain ⟨s, hs, -, -, hdead⟩ := hsub ht
  refine h key s hs (hdead ht_dead) (hderivable.mono fun ht => ?_)
  obtain ⟨s, hs, hsystem, hdefinitions, -⟩ := hsub ht
  exact ⟨s, hs, hsystem, hdefinitions⟩

theorem Spares.prune (hnodup : table.keys.Nodup) (h : table.Spares table) :
    table.prune.Spares table.prune :=
  h.shrink fun {key t} ht => by
    rw [get?_prune hnodup] at ht
    exact ⟨t, (Option.filter_eq_some_iff.1 ht).1, id, List.Subset.refl _, id⟩

theorem Spares.invalidateAll (h : table.Spares table) :
    table.invalidateAll.Spares table.invalidateAll :=
  h.shrink fun {key t} ht => by
    rw [get?_invalidateAll] at ht
    obtain ⟨s, hs, rfl⟩ := Option.map_eq_some_iff.1 ht
    refine ⟨s, hs, (isSystem_invalidate s).symm.trans, ?_⟩
    cases hsystem : s.isSystem with
    | true =>
      rw [invalidate_of_isSystem hsystem]
      exact ⟨List.Subset.refl _, id⟩
    | false => simp [StorySymbol.invalidate, hsystem]

theorem Spares.removeGoal (h : table.Spares table) (goal : String) :
    (table.removeGoal goal).Spares (table.removeGoal goal) :=
  h.shrink fun {key t} ht => by
    rw [get?_removeGoal] at ht
    obtain ⟨s, hs, rfl⟩ := Option.map_eq_some_iff.1 ht
    refine ⟨s, hs, (StorySymbol.isSystem_revised _).symm.trans, ?_, fun hdead => ?_⟩
    · rw [StorySymbol.definitions_revised]
      exact List.filter_subset_self _
    · cases hsystem : s.isSystem with
      | true => rwa [StorySymbol.revised_of_isSystem (s := strip goal s) hsystem] at hdead
      | false => exact (isDead_revised (s := strip goal s) hsystem hdead).2

variable {goal : String} {types : TypeRegistry} {tree : Goal}

/-- A symbol that a goal does not define keeps its definitions when the goal is entered. -/
theorem definitions_gather_of_not_mem {sites : List CallSite}
    (hkey : key ∉ table.definedKeys sites) :
    (gather goal (sitesOf sites key) ((table.get? key).getD (.ofKey key))).definitions
      = ((table.get? key).getD (.ofKey key)).definitions := by
  cases hsystem : ((table.get? key).getD (.ofKey key)).isSystem with
  | true => exact definitions_gather_of_isSystem hsystem
  | false =>
    have hinferred : ∀ s, table.get? key = some s → s.isSystem = false := by
      intro s hs
      rwa [hs, Option.getD_some] at hsystem
    have hnone : contributed goal sites key = [] :=
      not_not.1 (mt (mem_definedKeys goal sites hinferred).2 hkey)
    rw [definitions_gather goal _ hsystem]
    exact (congrArg _ hnone).trans (List.append_nil _)

/-- **Entering a goal makes nothing derivable that it does not take back.** What is not reached keeps
its definitions, and these refer to symbols that are not reached either. -/
theorem derivable_of_addGoal (h : (table.addGoal goal types tree).1.Derivable key)
    (hkey : key ∉ table.reachedByAdding goal types tree) : table.Derivable key := by
  refine h.within (P := (· ∉ table.reachedByAdding goal types tree)) hkey
    (fun {key t} _ ht hsystem => ?declared) fun {key t d} hkey ht hproposes => ?inferred
  -- A key that the addition does not reach keeps its definitions, and they refer to such keys only.
  all_goals
    rw [get?_addGoal] at ht
    obtain ⟨u, hu, rfl⟩ := Option.map_eq_some_iff.1 ht
    have hgather := eq_gather_of_filled hu
  case declared =>
    rw [StorySymbol.isSystem_revised, hgather, (extends_gather _ _ _).isSystem] at hsystem
    cases hs : table.get? key with
    | none => simp [hs, StorySymbol.ofKey] at hsystem
    | some s => exact .declared hs (by simpa [hs] using hsystem)
  case inferred =>
    have hd : d ∈ u.definitions := StorySymbol.definitions_revised ▸ hproposes.mem
    have hrefreshed : ((table.filled goal (CallSite.ofGoal types tree)).refresh
        (table.definedKeys (CallSite.ofGoal types tree))).get? key
          = some (if key ∈ table.definedKeys (CallSite.ofGoal types tree) then u.refreshKind
            else u) := by
      rw [get?_refresh, hu]
      rfl
    have hchanged : key ∉ table.definedKeys (CallSite.ofGoal types tree) :=
      fun hmem => hkey ((closed_dependentsOf _ _).2 hmem)
    rw [if_neg hchanged] at hrefreshed
    refine ⟨?_, fun other href hreached => hkey (dependentsOf_closed hrefreshed hd href hreached)⟩
    rw [hgather, definitions_gather_of_not_mem hchanged] at hd
    cases hs : table.get? key with
    | none =>
      rw [hs] at hd
      cases hd
    | some s => exact ⟨s, rfl, by simpa [hs] using hd⟩

theorem Spares.addGoal (hsound : table.Sound) (h : table.Spares table) (goal : String)
    (types : TypeRegistry) (tree : Goal) :
    (table.addGoal goal types tree).1.Spares (table.addGoal goal types tree).1 := by
  intro key t ht hdead hderivable
  have hsystem : t.isSystem = false := by
    cases hsystem : t.isSystem with
    | false => rfl
    | true =>
      exact absurd hdead (by simp [((hsound.addGoal goal types tree).declared ht hsystem).1])
  rw [get?_addGoal] at ht
  obtain ⟨u, hu, rfl⟩ := Option.map_eq_some_iff.1 ht
  obtain ⟨hreached, hu_dead⟩ :=
    isDead_revised ((StorySymbol.isSystem_revised u).symm.trans hsystem) hdead
  rw [eq_gather_of_filled hu, (extends_gather _ _ _).isDead] at hu_dead
  cases hs : table.get? key with
  | none => simp [hs, StorySymbol.ofKey] at hu_dead
  | some s =>
    refine h key s hs (by simpa [hs] using hu_dead) (derivable_of_addGoal hderivable ?_)
    exact decide_eq_false_iff_not.1 hreached

end SymbolTable

/-! ## Runs

The invariant along the steps, from the declarations of a header on. -/

namespace TableStep

open SymbolTable

theorem spares_apply {table : SymbolTable} (hsound : table.Sound) (h : table.Spares table)
    (step : TableStep) : (apply table step).Spares (apply table step) := by
  cases step with
  | addGoal goal types tree => exact h.addGoal hsound goal types tree
  | removeGoal goal => exact h.removeGoal goal
  | prune => exact h.prune hsound.nodup
  | invalidateAll => exact h.invalidateAll
  | update weights => exact h.update hsound weights

theorem spares_run {table : SymbolTable} (hsound : table.Sound) (h : table.Spares table)
    (steps : List TableStep) : (steps.foldl apply table).Spares (steps.foldl apply table) := by
  induction steps generalizing table with
  | nil => exact h
  | cons step rest ih => exact ih (sound_apply hsound step) (spares_apply hsound h step)

end TableStep

namespace SymbolTable

/-- **No derivable symbol is dead, in any state.** Start from the declarations of a header and do any
steps in any order, updates among them: what is derivable is not given up for good. -/
theorem derivable_symbols_are_not_dead (header : String) (types : TypeRegistry)
    (declarations : List Declaration) (steps : List TableStep) :
    let table := steps.foldl TableStep.apply (declareAll {} header types declarations)
    ∀ key s, table.get? key = some s → table.Derivable key → s.isDead = false := by
  intro table key s hget hderivable
  have hstart : (declareAll {} header types declarations).Spares
      (declareAll {} header types declarations) := by
    intro key s hget hdead
    exact absurd hdead
      (by simp [((declareAll_spec header types declarations).2 hget).2.1])
  have h := TableStep.spares_run (sound_declareAll header types declarations) hstart steps
  exact Bool.eq_false_iff.2 fun hdead => h key s hget hdead hderivable

/-- Two databases that feed each other. The circle comes first and blocks the attempt on `DB_X`, and
only then comes the section that fills it. -/
theorem fed_circle_is_not_dead :
    let table := [TableStep.addGoal "Circle" {} (Sketch.goal []
        [Sketch.rule (Sketch.call 1 "DB_Y" [.name "_v"]) [] [Sketch.call 2 "DB_X" [.name "_v"]],
          Sketch.rule (Sketch.call 3 "DB_X" [.name "_v"]) [] [Sketch.call 4 "DB_Y" [.name "_v"]]]
        [Sketch.call 5 "DB_X" [.integer 7]]),
      .update []].foldl TableStep.apply (declareAll {} "story_header" {} [])
    (table.get? ⟨"DB_Y", 1⟩).map (·.isDead) = some false := by
  intro table
  have hderivable : table.Derivable ⟨"DB_Y", 1⟩ := derivable_iff.2 ⟨2, by cbv⟩
  have hsome : (table.get? ⟨"DB_Y", 1⟩).isSome = true := by cbv
  obtain ⟨s, hget⟩ := Option.isSome_iff_exists.1 hsome
  rw [hget]
  exact congrArg some (derivable_symbols_are_not_dead "story_header" {} [] _ _ s hget hderivable)

end SymbolTable

end StoryCheck
