import StoryCheck.Proofs.Symbol.Attempt

/-!
# What an attempt leaves alone

An attempt writes to flagged symbols only. It may let one fall back, which keeps the flag, or settle
it, which takes the flag off for the rest of the update; a symbol without flag is not touched again,
and neither is a symbol on the chain. All later arguments rest on this frame.

* **`StorySymbol.Evolves`** — what may become of a symbol.
* **`Attempt`** — the frame of an attempt: evolution of every symbol, no change on the chain, growth
  of the memory, and that a symbol reported as resolved is settled and resolved.
* **`attempt_induction`** — induction over attempts in which every attempt inside a walk comes with
  its frame.
* **`sweep_induction`**, **`get?_update`** — from attempts to sweeps and to a whole update.
-/

namespace StoryCheck

/-! ## Evolution of a symbol

Resolution writes on the verdict of a symbol and on its types. It never touches what goals say of
it, and leaves a symbol without a flag as it is. -/

namespace StorySymbol

theorem getElem?_parameters_fallBack (s : StorySymbol) (index : Nat) :
    s.fallBack.parameters[index]? = s.parameters[index]?.map fun p =>
      { p with
        type := agreedType (s.explicitTypes index)
        flow := s.statedFlow index none
        origin := none } := by
  simp [fallBack, List.getElem?_map, List.getElem?_zipIdx, Function.comp_def]

/-- Falling back twice is falling back once: what is stated depends on the definitions only. -/
theorem fallBack_fallBack (s : StorySymbol) : s.fallBack.fallBack = s.fallBack := by
  have hparameters : s.fallBack.fallBack.parameters = s.fallBack.parameters := by
    refine List.ext_getElem? fun index => ?_
    rw [getElem?_parameters_fallBack, getElem?_parameters_fallBack, Option.map_map]
    rfl
  show { s.fallBack with parameters := s.fallBack.fallBack.parameters } = s.fallBack
  rw [hparameters]

theorem resolution_adopt (s : StorySymbol) (index : Nat) (d : SymbolDefinition)
    (types : List (ValueType × Option ParameterRef)) :
    (s.adopt index d types).resolution = .resolved := by
  simp [resolution, adopt]

theorem needsUpdate_fallBack (s : StorySymbol) : s.fallBack.needsUpdate = s.needsUpdate := rfl

/-- The symbol and all its definitions have that many parameters. -/
structure HasLength (s : StorySymbol) (n : Nat) : Prop where
  parameters : s.parameters.length = n
  definitions : ∀ d ∈ s.definitions, d.parameters.length = n

theorem HasLength.fallBack {s : StorySymbol} {n : Nat} (h : s.HasLength n) :
    s.fallBack.HasLength n :=
  ⟨by simpa [StorySymbol.fallBack] using h.parameters, h.definitions⟩

theorem HasLength.markDead {s : StorySymbol} {n : Nat} (h : s.HasLength n) :
    s.markDead.HasLength n :=
  ⟨h.fallBack.parameters, h.definitions⟩

theorem HasLength.waitForDefinition {s : StorySymbol} {n : Nat} (h : s.HasLength n) :
    s.waitForDefinition.HasLength n :=
  ⟨h.fallBack.parameters, h.definitions⟩

theorem HasLength.adopt {s : StorySymbol} {n index : Nat} {d : SymbolDefinition}
    {types : List (ValueType × Option ParameterRef)} (h : s.HasLength n)
    (hd : s.definitions[index]? = some d) (hlength : types.length = d.parameters.length) :
    (s.adopt index d types).HasLength n := by
  have hn : d.parameters.length = n := h.definitions d (List.mem_of_getElem? hd)
  exact ⟨by simp [StorySymbol.adopt, hlength, hn], h.definitions⟩

/-- What may become of a symbol in an attempt. -/
inductive Evolves : StorySymbol → StorySymbol → Prop where
  | same (s : StorySymbol) : Evolves s s
  | fellBack {s : StorySymbol} (hflag : s.needsUpdate = true) : Evolves s s.fallBack
  | settled {s t : StorySymbol} (hflag : s.needsUpdate = true) (hsettled : t.needsUpdate = false)
      (hevidence : t.evidence = s.evidence) (hlength : ∀ n, s.HasLength n → t.HasLength n) :
      Evolves s t

namespace Evolves

variable {s t u : StorySymbol}

theorem evidence_eq (h : Evolves s t) : t.evidence = s.evidence := by
  cases h with
  | same => rfl
  | fellBack => rfl
  | settled _ _ hevidence _ => exact hevidence

theorem hasLength {n : Nat} (h : Evolves s t) (hs : s.HasLength n) : t.HasLength n := by
  cases h with
  | same => exact hs
  | fellBack => exact hs.fallBack
  | settled _ _ _ hlength => exact hlength n hs

/-- A symbol without flag stays what it is. -/
theorem eq_of_unflagged (h : Evolves s t) (hs : s.needsUpdate = false) : t = s := by
  cases h with
  | same => rfl
  | fellBack hflag => exact absurd hflag (by simp [hs])
  | settled hflag => exact absurd hflag (by simp [hs])

theorem trans (h : Evolves s t) (h' : Evolves t u) : Evolves s u := by
  cases h with
  | same => exact h'
  | fellBack hflag =>
    cases h' with
    | same => exact .fellBack hflag
    | fellBack =>
      rw [fallBack_fallBack]
      exact .fellBack hflag
    | settled _ hsettled hevidence hlength =>
      exact .settled hflag hsettled hevidence fun n hn => hlength n hn.fallBack
  | settled hflag hsettled hevidence hlength =>
    rw [h'.eq_of_unflagged hsettled]
    exact .settled hflag hsettled hevidence hlength

/-- Nothing is flagged in the course of it. -/
theorem flagged_before (h : Evolves s t) (ht : t.needsUpdate = true) : s.needsUpdate = true := by
  by_contra hsettled
  rw [h.eq_of_unflagged (by simpa using hsettled)] at ht
  exact hsettled ht

/-- A symbol that fell back stays so as long as it is flagged. -/
theorem fallBack_eq (h : Evolves s t) (hs : s.fallBack = s) (ht : t.needsUpdate = true) :
    t.fallBack = t := by
  cases h with
  | same => exact hs
  | fellBack => exact fallBack_fallBack s
  | settled _ hsettled => exact absurd ht (by simp [hsettled])

end Evolves

end StorySymbol

/-! ## Evolution of a table

Symbols neither come nor go in a sweep, and none without a flag is changed. -/

namespace SymbolTable

/-- Every symbol of the table evolves, and none comes or goes. -/
structure Evolves (before after : SymbolTable) : Prop where
  keys : after.keys = before.keys
  symbol : ∀ {key s}, before.get? key = some s → ∃ t, after.get? key = some t ∧ s.Evolves t

namespace Evolves

variable {a b c : SymbolTable} {key : SymbolKey} {s t : StorySymbol}

theorem refl (table : SymbolTable) : Evolves table table :=
  ⟨rfl, fun hget => ⟨_, hget, .same _⟩⟩

theorem trans (h : Evolves a b) (h' : Evolves b c) : Evolves a c := by
  refine ⟨h'.keys.trans h.keys, fun hget => ?_⟩
  obtain ⟨t, ht, hst⟩ := h.symbol hget
  obtain ⟨u, hu, htu⟩ := h'.symbol ht
  exact ⟨u, hu, hst.trans htu⟩

/-- A symbol of the later table has evolved from one of the earlier. -/
theorem exists_before (h : Evolves a b) (ht : b.get? key = some t) :
    ∃ s, a.get? key = some s ∧ s.Evolves t := by
  have hkey : key ∈ a.keys := h.keys ▸ mem_keys_of_get? ht
  obtain ⟨s, hs⟩ := Option.isSome_iff_exists.1 (get?_isSome_iff.2 hkey)
  obtain ⟨t', ht', hst⟩ := h.symbol hs
  rw [ht] at ht'
  cases ht'
  exact ⟨s, hs, hst⟩

theorem get?_eq_none_iff (h : Evolves a b) : b.get? key = none ↔ a.get? key = none := by
  rw [SymbolTable.get?_eq_none_iff, SymbolTable.get?_eq_none_iff, h.keys]

/-- A symbol without flag is looked up as before. -/
theorem get?_of_unflagged (h : Evolves a b) (hs : a.get? key = some s)
    (hflag : s.needsUpdate = false) : b.get? key = some s := by
  obtain ⟨t, ht, hst⟩ := h.symbol hs
  rw [ht, hst.eq_of_unflagged hflag]

theorem modify {f : StorySymbol → StorySymbol} (hkey : ∀ s, (f s).key = s.key)
    (hf : ∀ s, a.get? key = some s → s.Evolves (f s)) : Evolves a (a.modify key f) := by
  refine ⟨keys_modify hkey, fun {other s} hget => ?_⟩
  rw [get?_modify hkey]
  split
  · next heq =>
    subst heq
    exact ⟨f s, by rw [hget]; rfl, hf s hget⟩
  · exact ⟨s, hget, .same s⟩

end Evolves

end SymbolTable

/-! ## The frame of an attempt

An attempt below a chain leaves the chain alone. This is what its caller may count on when it goes
on after the attempt, and what every later induction is given for free. -/

namespace Resolving

variable {chain : List SymbolKey} {key other : SymbolKey} {σ σ₁ σ₂ σ' : Sweep}
  {verdict : Resolution} {s t : StorySymbol}

/-- What a part of a walk below a chain does at most. -/
structure Stays (chain : List SymbolKey) (σ σ' : Sweep) : Prop where
  evolves : σ.table.Evolves σ'.table
  chain_eq : ∀ other ∈ chain, σ'.table.get? other = σ.table.get? other
  remembers : σ.pending ⊆ σ'.pending
  forgets : ∀ other ∈ chain, other ∈ σ'.pending → other ∈ σ.pending

/-- What an attempt on a symbol below a chain does at most. -/
structure Attempt (chain : List SymbolKey) (key : SymbolKey) (σ : Sweep) (verdict : Resolution)
    (σ' : Sweep) : Prop extends Stays chain σ σ' where
  /-- What is reported as resolved is settled. -/
  resolved : verdict = .resolved →
    ∃ s, σ'.table.get? key = some s ∧ s.needsUpdate = false ∧ s.resolution = .resolved
  /-- What is settled is reported as it is. -/
  settled : ∀ s, σ.table.get? key = some s → s.needsUpdate = false → verdict = s.resolution
  /-- A symbol on the chain is blocked, unless it is known to be pending. -/
  looped : ∀ s, σ.table.get? key = some s → s.needsUpdate = true → key ∉ σ.pending →
    key ∈ chain → verdict = .blocked
  /-- A symbol that is not there is dead. -/
  absent : σ.table.get? key = none → verdict = .dead

namespace Stays

theorem refl (chain : List SymbolKey) (σ : Sweep) : Stays chain σ σ :=
  ⟨.refl σ.table, fun _ _ => rfl, List.Subset.refl _, fun _ _ h => h⟩

theorem visit (chain walking : List SymbolKey) (σ : Sweep) : Stays chain σ (σ.visit walking) :=
  ⟨.refl σ.table, fun _ _ => rfl, List.Subset.refl _, fun _ _ h => h⟩

theorem trans (h : Stays chain σ σ₁) (h' : Stays chain σ₁ σ₂) : Stays chain σ σ₂ where
  evolves := h.evolves.trans h'.evolves
  chain_eq other hmem := (h'.chain_eq other hmem).trans (h.chain_eq other hmem)
  remembers _ hmem := h'.remembers (h.remembers hmem)
  forgets other hmem hpending := h.forgets other hmem (h'.forgets other hmem hpending)

theorem of_cons (h : Stays (key :: chain) σ σ') : Stays chain σ σ' where
  evolves := h.evolves
  chain_eq other hmem := h.chain_eq other (List.mem_cons_of_mem _ hmem)
  remembers := h.remembers
  forgets other hmem := h.forgets other (List.mem_cons_of_mem _ hmem)

/-- A change to a symbol that is not on the chain stays within the frame. -/
theorem modify {f : StorySymbol → StorySymbol} (h : Stays chain σ σ') (hkey : ∀ s, (f s).key = s.key)
    (hfresh : key ∉ chain) (hget : σ'.table.get? key = some s) (hf : s.Evolves (f s)) :
    Stays chain σ (σ'.modify key f) where
  evolves := by
    refine h.evolves.trans (.modify hkey fun t ht => ?_)
    rw [hget] at ht
    cases ht
    exact hf
  chain_eq other hmem := by
    have hne : other ≠ key := fun heq => hfresh (heq ▸ hmem)
    rw [Sweep.table_modify, SymbolTable.get?_modify_of_ne hkey hne]
    exact h.chain_eq other hmem
  remembers := h.remembers
  forgets := h.forgets

theorem remember (failures : Failures) (h : Stays chain σ σ') (hfresh : key ∉ chain) :
    Stays chain σ (σ'.remember key failures) where
  evolves := by
    rw [Sweep.table_remember]
    exact h.evolves
  chain_eq := by
    rw [Sweep.table_remember]
    exact h.chain_eq
  remembers other hmem := Sweep.mem_pending_remember.2 (Or.inl (h.remembers hmem))
  forgets other hmem hpending := by
    rcases Sweep.mem_pending_remember.1 hpending with hpending | ⟨rfl, -⟩
    · exact h.forgets other hmem hpending
    · exact absurd hmem hfresh

/-- Every change stays within the frame of the root. -/
theorem root (h : Stays chain σ σ') : Stays [] σ σ' where
  evolves := h.evolves
  chain_eq := nofun
  remembers := h.remembers
  forgets := nofun

end Stays

/-- The frame of an attempt that does not walk its symbol. -/
theorem Attempt.of_known (hwalk : toWalk σ chain key = .error verdict) :
    Attempt chain key σ verdict σ := by
  -- A verdict is known without a walk if there is no symbol, if it is settled, if it is remembered
  -- as pending, or if it is on the chain.
  obtain ⟨hnone, rfl⟩ | ⟨s, hget, hcases⟩ := toWalk_eq_error hwalk
  · have habsent (t) : σ.table.get? key ≠ some t := by simp [hnone]
    exact
      { Stays.refl chain σ with
        resolved := nofun
        settled := fun t ht => absurd ht (habsent t)
        looped := fun t ht => absurd ht (habsent t)
        absent := fun _ => rfl }
  · refine { Stays.refl chain σ with resolved := ?_, settled := ?_, looped := ?_, absent := ?_ }
    · rintro rfl
      obtain ⟨hsettled, hresolved⟩ | ⟨-, -, hverdict⟩ | ⟨-, -, -, hverdict⟩ := hcases
      · exact ⟨s, hget, hsettled, hresolved.symm⟩
      · cases hverdict
      · cases hverdict
    · intro t ht hsettled
      rw [hget, Option.some.injEq] at ht
      subst ht
      obtain ⟨-, hverdict⟩ | ⟨hflag, -⟩ | ⟨hflag, -⟩ := hcases
      · exact hverdict
      · exact absurd hflag (by simp [hsettled])
      · exact absurd hflag (by simp [hsettled])
    · intro t ht hflag hpending _
      rw [hget, Option.some.injEq] at ht
      subst ht
      obtain ⟨hsettled, -⟩ | ⟨-, hmem, -⟩ | ⟨-, -, -, hverdict⟩ := hcases
      · exact absurd hflag (by simp [hsettled])
      · exact absurd hmem hpending
      · exact hverdict
    · exact fun hnone => absurd (hget.symm.trans hnone) nofun

/-- The frame of an attempt that walks its symbol. -/
theorem Attempt.of_walked (hwalk : toWalk σ chain key = .ok s) (hstays : Stays chain σ σ')
    (hresolved : verdict = .resolved →
      ∃ t, σ'.table.get? key = some t ∧ t.needsUpdate = false ∧ t.resolution = .resolved) :
    Attempt chain key σ verdict σ' := by
  obtain ⟨hget, hflag, -, hfresh⟩ := toWalk_eq_ok_iff.1 hwalk
  refine { hstays with resolved := hresolved, settled := ?_, looped := ?_, absent := ?_ }
  · intro t ht hsettled
    rw [hget, Option.some.injEq] at ht
    exact absurd hflag (by simp [ht, hsettled])
  · exact fun _ _ _ _ hmem => absurd hmem hfresh
  · intro hnone
    rw [hget] at hnone
    cases hnone

/-! ### The frame of the loops

What each attempt keeps is kept by the two loops, over parameters and over candidates. Both are
treated here as derivations, so that the induction is one over the loop and not over the state. -/

section Loops

variable {R R' : SymbolKey → Sweep → Resolution → Sweep → Prop}

theorem map_eq_ok {c : Completion} {types : List (ValueType × Option ParameterRef)}
    {f : List (ValueType × Option ParameterRef) → List (ValueType × Option ParameterRef)} :
    c.map f = .ok types ↔ ∃ rest, c = .ok rest ∧ f rest = types := by
  cases c <;> simp [Except.map]

theorem Completes.mono (hR : ∀ key σ verdict σ', R key σ verdict σ' → R' key σ verdict σ')
    {parameters : List DefinitionParameter} {c : Completion}
    (h : Completes R parameters σ c σ') : Completes R' parameters σ c σ' := by
  induction h with
  | nil σ => exact .nil σ
  | explicit hsource _ ih => exact .explicit hsource ih
  | unknown hsource => exact .unknown hsource
  | typed hsource hattempt hknown _ ih => exact .typed hsource (hR _ _ _ _ hattempt) hknown ih
  | untyped hsource hattempt hknown => exact .untyped hsource (hR _ _ _ _ hattempt) hknown
  | failed hsource hattempt hwhy => exact .failed hsource (hR _ _ _ _ hattempt) hwhy

theorem Searches.mono (hR : ∀ key σ verdict σ', R key σ verdict σ' → R' key σ verdict σ')
    {candidates : List (Nat × SymbolDefinition)} {failures failures' : Failures}
    {found : Option Adoption} (h : Searches R candidates failures σ found failures' σ') :
    Searches R' candidates failures σ found failures' σ' := by
  induction h with
  | exhausted failures σ => exact .exhausted failures σ
  | partly hpartial _ ih => exact .partly hpartial ih
  | complete hpartial htypes => exact .complete hpartial (htypes.mono hR)
  | incomplete hpartial htypes _ ih => exact .incomplete hpartial (htypes.mono hR) ih

theorem Completes.stays (hR : ∀ key σ verdict σ', R key σ verdict σ' → Stays chain σ σ')
    {parameters : List DefinitionParameter} {c : Completion}
    (h : Completes R parameters σ c σ') : Stays chain σ σ' := by
  induction h with
  | nil σ => exact .refl chain σ
  | explicit _ _ ih => exact ih
  | unknown => exact .refl chain _
  | typed _ hattempt _ _ ih => exact (hR _ _ _ _ hattempt).trans ih
  | untyped _ hattempt _ => exact hR _ _ _ _ hattempt
  | failed _ hattempt _ => exact hR _ _ _ _ hattempt

theorem Searches.stays (hR : ∀ key σ verdict σ', R key σ verdict σ' → Stays chain σ σ')
    {candidates : List (Nat × SymbolDefinition)} {failures failures' : Failures}
    {found : Option Adoption} (h : Searches R candidates failures σ found failures' σ') :
    Stays chain σ σ' := by
  induction h with
  | exhausted _ σ => exact .refl chain σ
  | partly _ _ ih => exact ih
  | complete _ htypes => exact htypes.stays hR
  | incomplete _ htypes _ ih => exact (htypes.stays hR).trans ih

/-- What every attempt keeps is kept by the loop over parameters. -/
theorem Completes.keep {P : Sweep → Prop}
    (hR : ∀ key σ verdict σ', R key σ verdict σ' → P σ → P σ')
    {parameters : List DefinitionParameter} {c : Completion}
    (h : Completes R parameters σ c σ') (hP : P σ) : P σ' := by
  induction h with
  | nil => exact hP
  | explicit _ _ ih => exact ih hP
  | unknown => exact hP
  | typed _ hattempt _ _ ih => exact ih (hR _ _ _ _ hattempt hP)
  | untyped _ hattempt _ => exact hR _ _ _ _ hattempt hP
  | failed _ hattempt _ => exact hR _ _ _ _ hattempt hP

/-- What every attempt keeps is kept by the loop over candidates. -/
theorem Searches.keep {P : Sweep → Prop}
    (hR : ∀ key σ verdict σ', R key σ verdict σ' → P σ → P σ')
    {candidates : List (Nat × SymbolDefinition)} {failures failures' : Failures}
    {found : Option Adoption} (h : Searches R candidates failures σ found failures' σ')
    (hP : P σ) : P σ' := by
  induction h with
  | exhausted => exact hP
  | partly _ _ ih => exact ih hP
  | complete _ htypes => exact htypes.keep hR hP
  | incomplete _ htypes _ ih => exact ih (htypes.keep hR hP)

/-- The candidate that was found is one, has a type or a reference for every parameter, and its
types were found last. -/
theorem Searches.found_eq {candidates : List (Nat × SymbolDefinition)}
    {failures failures' : Failures} {index : Nat} {d : SymbolDefinition}
    {types : List (ValueType × Option ParameterRef)}
    (h : Searches R candidates failures σ (some (index, d, types)) failures' σ') :
    (index, d) ∈ candidates ∧ d.isPartial = false
      ∧ ∃ σ₁, Completes R d.parameters σ₁ (.ok types) σ' := by
  generalize hfound : some (index, d, types) = found at h
  induction h with
  | exhausted => cases hfound
  | partly _ _ ih =>
    obtain ⟨hmem, hrest⟩ := ih hfound
    exact ⟨List.mem_cons_of_mem _ hmem, hrest⟩
  | complete hpartial htypes =>
    cases hfound
    exact ⟨List.mem_cons_self, hpartial, _, htypes⟩
  | incomplete _ _ _ ih =>
    obtain ⟨hmem, hrest⟩ := ih hfound
    exact ⟨List.mem_cons_of_mem _ hmem, hrest⟩

theorem Completes.length_eq {parameters : List DefinitionParameter}
    {types : List (ValueType × Option ParameterRef)} (h : Completes R parameters σ (.ok types) σ') :
    types.length = parameters.length := by
  generalize hc : Except.ok types = c at h
  induction h generalizing types with
  | nil =>
    cases hc
    rfl
  | explicit _ _ ih | typed _ _ _ _ ih =>
    obtain ⟨rest, rfl, rfl⟩ := map_eq_ok.1 hc.symm
    exact congrArg (· + 1) (ih rfl)
  | unknown | untyped | failed => cases hc

/-- Where nothing was found, each candidate is partial or was found incomplete. `P` is what attempts
keep. -/
theorem Searches.none_found {P : Sweep → Prop}
    (hR : ∀ key σ verdict σ', R key σ verdict σ' → P σ → P σ')
    {candidates : List (Nat × SymbolDefinition)} {failures failures' : Failures}
    (h : Searches R candidates failures σ none failures' σ') (hP : P σ) :
    ∀ candidate ∈ candidates, candidate.2.isPartial = true
      ∨ ∃ σ₁ σ₂ why, P σ₁ ∧ Completes R candidate.2.parameters σ₁ (.error why) σ₂ := by
  generalize hfound : none = found at h
  induction h with
  | exhausted => nofun
  | partly hpartial _ ih =>
    intro candidate hmem
    rcases List.mem_cons.1 hmem with rfl | hmem
    · exact Or.inl hpartial
    · exact ih hP hfound candidate hmem
  | complete => cases hfound
  | incomplete _ htypes _ ih =>
    intro candidate hmem
    rcases List.mem_cons.1 hmem with rfl | hmem
    · exact Or.inr ⟨_, _, _, hP, htypes⟩
    · exact ih (htypes.keep hR hP) hfound candidate hmem

/-- Types are found if every attempt on a symbol that is referred to resolves it to a known type. -/
theorem Completes.exists_types {parameters : List DefinitionParameter} {c : Completion}
    (h : Completes R parameters σ c σ') (hsources : ∀ p ∈ parameters, p.source ≠ .unknown)
    (hanswers : ∀ p ∈ parameters, ∀ ref, p.source = .reference ref → ∀ σ₁ verdict σ₂,
      R ref.symbol σ₁ verdict σ₂ → verdict = .resolved ∧ (σ₂.table.typeAt ref).isKnown = true) :
    ∃ types, c = .ok types := by
  induction h with
  | nil => exact ⟨[], rfl⟩
  | explicit _ _ ih =>
    obtain ⟨types, rfl⟩ := ih (fun p hp => hsources p (List.mem_cons_of_mem _ hp))
      fun p hp => hanswers p (List.mem_cons_of_mem _ hp)
    exact ⟨_, rfl⟩
  | unknown hsource => exact absurd hsource (hsources _ List.mem_cons_self)
  | typed _ _ _ _ ih =>
    obtain ⟨types, rfl⟩ := ih (fun p hp => hsources p (List.mem_cons_of_mem _ hp))
      fun p hp => hanswers p (List.mem_cons_of_mem _ hp)
    exact ⟨_, rfl⟩
  | untyped hsource hattempt hunknown =>
    have hknown := (hanswers _ List.mem_cons_self _ hsource _ _ _ hattempt).2
    exact absurd hknown (by simp [hunknown])
  | failed hsource hattempt hwhy =>
    exact absurd (hanswers _ List.mem_cons_self _ hsource _ _ _ hattempt).1 hwhy

/-- Where attempts stand in the loop over parameters: on a symbol that a parameter refers to, behind
the start and before the end. -/
theorem Completes.located (hR : ∀ key σ verdict σ', R key σ verdict σ' → Stays chain σ σ')
    {parameters : List DefinitionParameter} {c : Completion} (h : Completes R parameters σ c σ') :
    Completes (fun key σ₁ verdict σ₂ => R key σ₁ verdict σ₂
      ∧ (∃ p ∈ parameters, ∃ ref, p.source = .reference ref ∧ ref.symbol = key)
      ∧ Stays chain σ σ₁ ∧ Stays chain σ₂ σ') parameters σ c σ' := by
  induction h with
  | nil σ => exact .nil σ
  | explicit hsource _ ih =>
    refine .explicit hsource (ih.mono fun _ _ _ _ => ?_)
    rintro ⟨hattempt, ⟨p, hp, hrefers⟩, hbehind, hbefore⟩
    exact ⟨hattempt, ⟨p, List.mem_cons_of_mem _ hp, hrefers⟩, hbehind, hbefore⟩
  | unknown hsource => exact .unknown hsource
  | typed hsource hattempt hknown hrest ih =>
    refine .typed hsource ⟨hattempt, ⟨_, List.mem_cons_self, _, hsource, rfl⟩, .refl chain _,
      hrest.stays hR⟩ hknown (ih.mono fun _ _ _ _ => ?_)
    rintro ⟨hattempt', ⟨p, hp, hrefers⟩, hbehind, hbefore⟩
    exact ⟨hattempt', ⟨p, List.mem_cons_of_mem _ hp, hrefers⟩, (hR _ _ _ _ hattempt).trans hbehind,
      hbefore⟩
  | untyped hsource hattempt hknown =>
    exact .untyped hsource ⟨hattempt, ⟨_, List.mem_cons_self, _, hsource, rfl⟩, .refl chain _,
      .refl chain _⟩ hknown
  | failed hsource hattempt hwhy =>
    exact .failed hsource ⟨hattempt, ⟨_, List.mem_cons_self, _, hsource, rfl⟩, .refl chain _,
      .refl chain _⟩ hwhy

/-- Where attempts stand in the loop over candidates. -/
theorem Searches.located (hR : ∀ key σ verdict σ', R key σ verdict σ' → Stays chain σ σ')
    {candidates : List (Nat × SymbolDefinition)} {failures failures' : Failures}
    {found : Option Adoption} (h : Searches R candidates failures σ found failures' σ') :
    Searches (fun key σ₁ verdict σ₂ => R key σ₁ verdict σ₂
      ∧ (∃ candidate ∈ candidates, key ∈ candidate.2.references)
      ∧ Stays chain σ σ₁ ∧ Stays chain σ₂ σ') candidates failures σ found failures' σ' := by
  induction h with
  | exhausted failures σ => exact .exhausted failures σ
  | partly hpartial _ ih =>
    refine .partly hpartial (ih.mono fun _ _ _ _ => ?_)
    rintro ⟨hattempt, ⟨candidate, hmem, hrefers⟩, hbehind, hbefore⟩
    exact ⟨hattempt, ⟨candidate, List.mem_cons_of_mem _ hmem, hrefers⟩, hbehind, hbefore⟩
  | complete hpartial htypes =>
    refine .complete hpartial ((htypes.located hR).mono fun _ _ _ _ => ?_)
    rintro ⟨hattempt, hrefers, hbehind, hbefore⟩
    exact ⟨hattempt, ⟨_, List.mem_cons_self, SymbolDefinition.mem_references.2 hrefers⟩, hbehind,
      hbefore⟩
  | incomplete hpartial htypes hrest ih =>
    refine .incomplete hpartial ((htypes.located hR).mono fun _ _ _ _ => ?_)
      (ih.mono fun _ _ _ _ => ?_)
    · rintro ⟨hattempt, hrefers, hbehind, hbefore⟩
      exact ⟨hattempt, ⟨_, List.mem_cons_self, SymbolDefinition.mem_references.2 hrefers⟩, hbehind,
        hbefore.trans (hrest.stays hR)⟩
    · rintro ⟨hattempt, ⟨candidate, hmem, hrefers⟩, hbehind, hbefore⟩
      exact ⟨hattempt, ⟨candidate, List.mem_cons_of_mem _ hmem, hrefers⟩,
        (htypes.stays hR).trans hbehind, hbefore⟩

/-- A candidate that does not come after the one that was found is partial or was found
incomplete. -/
theorem Searches.passed {le : Nat × SymbolDefinition → Nat × SymbolDefinition → Prop}
    (hself : ∀ a, le a a) {candidates : List (Nat × SymbolDefinition)}
    {failures failures' : Failures} {found : Option Adoption}
    (h : Searches R candidates failures σ found failures' σ') (hsorted : candidates.Pairwise le)
    {candidate : Nat × SymbolDefinition} (hmem : candidate ∈ candidates)
    (hbefore : ∀ index d types, found = some (index, d, types) → ¬ le (index, d) candidate) :
    candidate.2.isPartial = true
      ∨ ∃ σ₁ σ₂ why, Completes R candidate.2.parameters σ₁ (.error why) σ₂ := by
  induction h with
  | exhausted => cases hmem
  | partly hpartial _ ih =>
    rcases List.mem_cons.1 hmem with rfl | hmem
    · exact Or.inl hpartial
    · exact ih (List.pairwise_cons.1 hsorted).2 hmem hbefore
  | complete =>
    refine absurd ?_ (hbefore _ _ _ rfl)
    rcases List.mem_cons.1 hmem with rfl | hmem
    · exact hself _
    · exact (List.pairwise_cons.1 hsorted).1 candidate hmem
  | incomplete _ htypes _ ih =>
    rcases List.mem_cons.1 hmem with rfl | hmem
    · exact Or.inr ⟨_, _, _, htypes⟩
    · exact ih (List.pairwise_cons.1 hsorted).2 hmem hbefore

end Loops

/-! ## Attempts with their frame

The induction by which all the main results go: a motive for attempts, and one case for each way in
which an attempt ends. -/

/-- A walk of a symbol up to where its verdict is decided. `R` says what is known of the attempts in
it. -/
structure Walked (R : SymbolKey → Sweep → Resolution → Sweep → Prop) (weights : Weights)
    (chain : List SymbolKey) (key : SymbolKey) (σ : Sweep) (s : StorySymbol)
    (found : Option Adoption) (failures : Failures) (σ' : Sweep) : Prop where
  get?_eq : σ.table.get? key = some s
  flagged : s.needsUpdate = true
  not_pending : key ∉ σ.pending
  fresh : key ∉ chain
  stays : Stays (key :: chain) σ σ'
  searches : Searches R (s.candidates weights) {} (σ.visit chain) found failures σ'

namespace Walked

variable {R : SymbolKey → Sweep → Resolution → Sweep → Prop} {weights : Weights}
  {found : Option Adoption} {failures : Failures}

theorem of_searches (hwalk : toWalk σ chain key = .ok s)
    (hR : ∀ other σ verdict σ', R other σ verdict σ' → Stays (key :: chain) σ σ')
    (h : Searches R (s.candidates weights) {} (σ.visit chain) found failures σ') :
    Walked R weights chain key σ s found failures σ' := by
  obtain ⟨hget, hflag, hpending, hfresh⟩ := toWalk_eq_ok_iff.1 hwalk
  exact
    { get?_eq := hget, flagged := hflag, not_pending := hpending, fresh := hfresh
      stays := (Stays.visit (key :: chain) chain σ).trans (h.stays hR)
      searches := h }

/-- The walked symbol is still what it was. -/
theorem get?_end (h : Walked R weights chain key σ s found failures σ') :
    σ'.table.get? key = some s := by
  rw [h.stays.chain_eq key List.mem_cons_self, h.get?_eq]

/-- The walked symbol is not remembered. -/
theorem not_pending_end (h : Walked R weights chain key σ s found failures σ') :
    key ∉ σ'.pending :=
  fun hpending => h.not_pending (h.stays.forgets key List.mem_cons_self hpending)

/-- Adopting what was found. -/
theorem evolves_adopt {index : Nat} {d : SymbolDefinition}
    {types : List (ValueType × Option ParameterRef)}
    (h : Walked R weights chain key σ s (some (index, d, types)) failures σ') :
    s.Evolves (s.adopt index d types) := by
  obtain ⟨hcandidate, -, σ₁, htypes⟩ := h.searches.found_eq
  exact .settled h.flagged rfl rfl fun n hn =>
    hn.adopt (StorySymbol.mem_candidates.1 hcandidate).1 htypes.length_eq

/-- Deciding the verdict stays within the frame. -/
theorem stays_modify {f : StorySymbol → StorySymbol}
    (h : Walked R weights chain key σ s found failures σ') (hkey : ∀ s, (f s).key = s.key)
    (hf : s.Evolves (f s)) : Stays chain σ (σ'.modify key f) :=
  h.stays.of_cons.modify hkey h.fresh h.get?_end hf

theorem get?_modify {f : StorySymbol → StorySymbol}
    (h : Walked R weights chain key σ s found failures σ') (hkey : ∀ s, (f s).key = s.key) :
    (σ'.modify key f).table.get? key = some (f s) := by
  rw [Sweep.table_modify, SymbolTable.get?_modify_self hkey, h.get?_end]
  rfl

end Walked

/-- **Induction over attempts, with their frame.** As `resolve_induction`, but a walk comes with what
it cannot have touched, and so does every attempt in it. -/
theorem attempt_induction (weights : Weights)
    {motive : List SymbolKey → SymbolKey → Sweep → Resolution → Sweep → Prop}
    (known : ∀ {chain key σ verdict}, toWalk σ chain key = .error verdict →
      motive chain key σ verdict σ)
    (adopted : ∀ {chain key σ s σ' index d types failures},
      Walked (fun other σ verdict σ' => Attempt (key :: chain) other σ verdict σ'
        ∧ motive (key :: chain) other σ verdict σ') weights chain key σ s
        (some (index, d, types)) failures σ' →
      motive chain key σ .resolved (σ'.modify key fun s => s.adopt index d types))
    (pending : ∀ {chain key σ s σ' failures},
      Walked (fun other σ verdict σ' => Attempt (key :: chain) other σ verdict σ'
        ∧ motive (key :: chain) other σ verdict σ') weights chain key σ s none failures σ' →
      failures.pending = true →
      motive chain key σ .pending ((σ'.modify key .fallBack).remember key failures))
    (blocked : ∀ {chain key σ s σ' failures},
      Walked (fun other σ verdict σ' => Attempt (key :: chain) other σ verdict σ'
        ∧ motive (key :: chain) other σ verdict σ') weights chain key σ s none failures σ' →
      failures.pending = false → failures.blocked = true → chain ≠ [] →
      motive chain key σ .blocked σ')
    (undefined : ∀ {chain key σ s}, toWalk σ chain key = .ok s →
      s.candidates weights = [] → s.isDatabase = false →
      motive chain key σ .pending ((σ.visit chain).modify key .waitForDefinition))
    (dead : ∀ {chain key σ s σ' failures},
      Walked (fun other σ verdict σ' => Attempt (key :: chain) other σ verdict σ'
        ∧ motive (key :: chain) other σ verdict σ') weights chain key σ s none failures σ' →
      failures.pending = false → (failures.blocked = true → chain = []) →
      (s.candidates weights = [] → s.isDatabase = true) →
      motive chain key σ .dead (σ'.modify key .markDead))
    (room : Nat) (key : SymbolKey) (σ : Sweep) (hroom : σ.table.keys.length ≤ room) :
    Attempt [] key σ ((resolve weights room [] key).run σ).1
        ((resolve weights room [] key).run σ).2
      ∧ motive [] key σ ((resolve weights room [] key).run σ).1
        ((resolve weights room [] key).run σ).2 := by
  -- Frame and motive go together: the frame of a walk needs those of the attempts in it.
  refine resolve_induction weights
    (motive := fun chain key σ verdict σ' =>
      Attempt chain key σ verdict σ' ∧ motive chain key σ verdict σ')
    ?known ?adopted ?pending ?blocked ?undefined ?dead room key σ hroom
  case known =>
    intro chain key σ verdict hwalk
    exact ⟨.of_known hwalk, known hwalk⟩
  case adopted =>
    intro chain key σ s σ' index d types failures hwalk hsearch
    have hwalked := Walked.of_searches hwalk (fun _ _ _ _ h => h.1.toStays) hsearch
    refine ⟨.of_walked hwalk ?_ fun _ => ?_, adopted hwalked⟩
    · exact hwalked.stays_modify (fun _ => rfl) hwalked.evolves_adopt
    · exact ⟨_, hwalked.get?_modify fun _ => rfl, rfl, s.resolution_adopt index d types⟩
  case pending =>
    intro chain key σ s σ' failures hwalk hsearch hpending
    have hwalked := Walked.of_searches hwalk (fun _ _ _ _ h => h.1.toStays) hsearch
    refine ⟨.of_walked hwalk (.remember failures ?_ hwalked.fresh) nofun,
      pending hwalked hpending⟩
    exact hwalked.stays_modify (fun _ => rfl) (.fellBack hwalked.flagged)
  case blocked =>
    intro chain key σ s σ' failures hwalk hsearch hpending hblocked hchain
    have hwalked := Walked.of_searches hwalk (fun _ _ _ _ h => h.1.toStays) hsearch
    exact ⟨.of_walked hwalk hwalked.stays.of_cons nofun,
      blocked hwalked hpending hblocked hchain⟩
  case undefined =>
    intro chain key σ s hwalk hcandidates hdatabase
    obtain ⟨hget, hflag, -, hfresh⟩ := toWalk_eq_ok_iff.1 hwalk
    refine ⟨.of_walked hwalk ?_ nofun, undefined hwalk hcandidates hdatabase⟩
    exact (Stays.visit chain chain σ).modify (f := .waitForDefinition) (fun _ => rfl) hfresh hget
      (.settled hflag rfl rfl fun _ h => h.waitForDefinition)
  case dead =>
    intro chain key σ s σ' failures hwalk hsearch hpending hblocked hcandidates
    have hwalked := Walked.of_searches hwalk (fun _ _ _ _ h => h.1.toStays) hsearch
    refine ⟨.of_walked hwalk ?_ nofun, dead hwalked hpending hblocked hcandidates⟩
    exact hwalked.stays_modify (fun _ => rfl)
      (.settled hwalked.flagged rfl rfl fun _ h => h.markDead)

end Resolving

/-! ## Sweeps and updates

A sweep is a row of attempts at the root, and an update is two sweeps and a clearing of flags. -/

namespace SymbolTable

variable {table : SymbolTable} {key : SymbolKey} {s : StorySymbol}

theorem evolves_resolve (weights : Weights) (room : Nat) (key : SymbolKey) (σ : Sweep)
    (hroom : σ.table.keys.length ≤ room) :
    σ.table.Evolves ((Resolving.resolve weights room [] key).run σ).2.table := by
  have h := Resolving.attempt_induction weights (motive := fun _ _ _ _ _ => True)
    (fun _ => trivial) (fun _ => trivial) (fun _ _ => trivial) (fun _ _ _ _ => trivial)
    (fun _ _ _ => trivial) (fun _ _ _ _ => trivial) room key σ hroom
  exact h.1.evolves

/-- **Induction over a sweep.** `P` is what every attempt at the root keeps, and `Q` is what such an
attempt achieves for its symbol and no later one spoils. -/
theorem sweep_induction (table : SymbolTable) (weights : Weights) {P : Sweep → Prop}
    {Q : SymbolKey → Sweep → Prop} (init : P { table })
    (attempt : ∀ key σ, σ.table.keys.length ≤ table.size → P σ →
      P ((Resolving.resolve weights table.size [] key).run σ).2
        ∧ Q key ((Resolving.resolve weights table.size [] key).run σ).2
        ∧ ∀ other, Q other σ → Q other ((Resolving.resolve weights table.size [] key).run σ).2) :
    P (table.sweep weights) ∧ ∀ key ∈ table.flagged, Q key (table.sweep weights) := by
  -- The attempts before a symbol keep `P`, its own achieves `Q`, and those behind it keep both.
  suffices h : ∀ (keys : List SymbolKey) (σ : Sweep), σ.table.keys.length ≤ table.size → P σ →
      let σ' := keys.foldl
        (fun σ key => ((Resolving.resolve weights table.size [] key).run σ).2) σ
      P σ' ∧ (∀ other, Q other σ → Q other σ') ∧ ∀ key ∈ keys, Q key σ' by
    obtain ⟨hP, -, hQ⟩ := h table.flagged { table } (Nat.le_of_eq table.size_eq_length_keys.symm) init
    exact ⟨hP, hQ⟩
  intro keys
  induction keys with
  | nil => exact fun σ _ hP => ⟨hP, fun _ hQ => hQ, nofun⟩
  | cons key rest ih =>
    intro σ hroom hP
    obtain ⟨hP₁, hQ₁, hkeep⟩ := attempt key σ hroom hP
    have hroom₁ := (evolves_resolve weights table.size key σ hroom).keys ▸ hroom
    obtain ⟨hP', hkeep', hQ'⟩ := ih _ hroom₁ hP₁
    refine ⟨hP', fun other hQ => hkeep' other (hkeep other hQ), fun other hmem => ?_⟩
    rcases List.mem_cons.1 hmem with rfl | hmem
    · exact hkeep' _ hQ₁
    · exact hQ' other hmem

theorem evolves_sweep (table : SymbolTable) (weights : Weights) :
    table.Evolves (table.sweep weights).table := by
  refine (sweep_induction table weights (P := fun σ => table.Evolves σ.table)
    (Q := fun _ _ => True) (.refl table) fun key σ hroom hP => ?_).1
  exact ⟨hP.trans (evolves_resolve weights table.size key σ hroom), trivial, fun _ _ => trivial⟩

theorem get?_clearFlags :
    table.clearFlags.get? key
      = (table.get? key).map fun s => { s with needsUpdate := false } :=
  get?_map fun _ => rfl

/-- A symbol is looked up after an update as after its two sweeps, without flag. -/
theorem get?_update (weights : Weights) :
    (table.update weights).1.get? key
      = (((table.sweep weights).table.sweep weights).table.get? key).map
          fun s => { s with needsUpdate := false } :=
  get?_clearFlags

theorem evolves_sweeps (table : SymbolTable) (weights : Weights) :
    table.Evolves ((table.sweep weights).table.sweep weights).table :=
  (table.evolves_sweep weights).trans (evolves_sweep _ weights)

theorem evolves_clearFlags (table : SymbolTable) : table.Evolves table.clearFlags := by
  refine ⟨keys_map fun _ => rfl, fun {key s} hget => ⟨{ s with needsUpdate := false }, ?_, ?_⟩⟩
  · rw [get?_clearFlags, hget]
    rfl
  · cases hflag : s.needsUpdate with
    | true => exact .settled hflag rfl rfl fun _ h => ⟨h.parameters, h.definitions⟩
    | false =>
      rw [← hflag]
      exact .same s

theorem evolves_update (table : SymbolTable) (weights : Weights) :
    table.Evolves (table.update weights).1 :=
  (table.evolves_sweeps weights).trans (evolves_clearFlags _)

/-- After an update no symbol is flagged. -/
theorem not_needsUpdate_update {weights : Weights}
    (hget : (table.update weights).1.get? key = some s) : s.needsUpdate = false := by
  rw [get?_update] at hget
  obtain ⟨t, -, rfl⟩ := Option.map_eq_some_iff.1 hget
  rfl

/-- An update looks up the symbols that were there. -/
theorem isSome_update (table : SymbolTable) (weights : Weights) (key : SymbolKey) :
    ((table.update weights).1.get? key).isSome = (table.get? key).isSome := by
  rw [get?_update, Option.isSome_map, Bool.eq_iff_iff, get?_isSome_iff, get?_isSome_iff,
    (table.evolves_sweeps weights).keys]

/-- A symbol that is not flagged stays what it is. -/
theorem get?_update_of_unflagged {weights : Weights} (hget : table.get? key = some s) (hsettled : s.needsUpdate = false) :
    (table.update weights).1.get? key = some s := by
  rw [get?_update, (table.evolves_sweeps weights).get?_of_unflagged hget hsettled,
    Option.map_some, ← hsettled]

theorem mem_flagged_of_get? (hget : table.get? key = some s) (hflag : s.needsUpdate = true) :
    key ∈ table.flagged :=
  List.mem_map.2 ⟨s, List.mem_filter.2 ⟨mem_symbols_of_get? hget, hflag⟩, key_of_get? hget⟩

end SymbolTable

end StoryCheck
