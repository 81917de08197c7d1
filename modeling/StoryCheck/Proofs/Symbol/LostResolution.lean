import StoryCheck.Proofs.Symbol.JustifiedRuns

/-!
# Lost resolutions

An update remembers a symbol as pending for the rest of a sweep, and makes two sweeps only. So it may
end with a pending symbol of which some candidate is complete by then. This module says exactly when
that happens: an update has lost a resolution just if flagging its pending symbols once more and
updating again resolves one of them.

* **`IsComplete`** — a definition that could be adopted as the table stands.
* **`retryPending`** — flags the pending symbols again.
* **`resolved_of_complete`** — a flagged symbol with a complete candidate is resolved by any update.
  It cannot be remembered as pending before it is walked, and a walk of it finds the candidate.
* **`unresolved_of_incomplete`** — without complete candidates nothing is adopted.
* **`nothing_lost_iff`** — the two together.
* **`resolution_can_be_lost`** — two sweeps are too few for two circles of which one hangs on the
  other.
-/

namespace StoryCheck

namespace SymbolTable

variable {table : SymbolTable} {key : SymbolKey} {s t : StorySymbol}

/-- A definition could be adopted: no parameter is without type, and every parameter that it refers
to belongs to a resolved symbol and has a known type. -/
def IsComplete (table : SymbolTable) (d : SymbolDefinition) : Prop :=
  d.isPartial = false ∧ ∀ p ∈ d.parameters, ∀ ref, p.source = .reference ref →
    ∃ s q, table.get? ref.symbol = some s ∧ s.resolution = .resolved
      ∧ s.parameters[ref.index]? = some q ∧ q.type.isKnown = true

/-- Flags the pending symbols. -/
def retryPending (table : SymbolTable) : SymbolTable :=
  table.map fun s => if s.resolution = .pending then s.invalidate else s

/-- No pending symbol has a candidate that is complete. -/
def NothingLost (table : SymbolTable) (weights : Weights) : Prop :=
  ∀ key s, table.get? key = some s → s.resolution = .pending →
    ∀ index d, (index, d) ∈ s.candidates weights → ¬ table.IsComplete d

theorem get?_retryPending :
    table.retryPending.get? key
      = (table.get? key).map fun s => if s.resolution = .pending then s.invalidate else s :=
  get?_map (by intro s; split <;> simp)

/-! ## Complete candidates are found

A walk that meets a complete candidate adopts it, or one in front of it. What may be lost is what
was walked too early and is not walked again. -/

/-- Every reference of the definition is offered. -/
def OffersAll (table : SymbolTable) (d : SymbolDefinition) : Prop :=
  d.isPartial = false ∧ ∀ p ∈ d.parameters, ∀ ref, p.source = .reference ref →
    ∃ type, table.Offers ref type

theorem typeAt_of_offers {ref : ParameterRef} {type : ValueType} (h : table.Offers ref type) :
    table.typeAt ref = type := by
  obtain ⟨s, p, hget, -, -, hp, htype, -⟩ := h
  simp [typeAt, hget, hp, htype]

end SymbolTable

namespace Resolving

open SymbolTable

/-- Looking for types does not fail where all references are offered. -/
theorem Completes.ne_error {R : SymbolKey → Sweep → Resolution → Sweep → Prop}
    {chain : List SymbolKey} {parameters : List DefinitionParameter} {σ σ' : Sweep}
    {c : Completion} (hR : ∀ key σ verdict σ', R key σ verdict σ' → Attempt chain key σ verdict σ')
    (h : Completes R parameters σ c σ')
    (hknown : ∀ p ∈ parameters, p.source ≠ .unknown)
    (hoffers : ∀ p ∈ parameters, ∀ ref, p.source = .reference ref →
      ∃ type, σ.table.Offers ref type) :
    ∃ types, c = .ok types := by
  refine (h.located fun _ _ _ _ h => (hR _ _ _ _ h).toStays).exists_types hknown ?_
  rintro p hp ref hsource σ₁ verdict σ₂ ⟨hattempt, -, hbehind, -⟩
  -- An offered parameter has a known type, then and later.
  obtain ⟨type, hoffer⟩ := hoffers p hp ref hsource
  have htype := typeAt_of_offers
    ((hoffer.evolves hbehind.evolves).evolves (hR _ _ _ _ hattempt).evolves)
  obtain ⟨s, -, hget, hsettled, hresolved, -, -, htype_known⟩ := hoffer.evolves hbehind.evolves
  refine ⟨((hR _ _ _ _ hattempt).settled s hget hsettled).trans hresolved, ?_⟩
  rw [htype]
  exact htype_known

/-- The symbol is settled and resolved. -/
def IsResolved (key : SymbolKey) (σ : Sweep) : Prop :=
  ∃ s, σ.table.get? key = some s ∧ s.needsUpdate = false ∧ s.resolution = .resolved

/-- The symbol is resolved, or can still be walked. -/
def IsOpen (key : SymbolKey) (σ : Sweep) : Prop :=
  IsResolved key σ
    ∨ ∃ s, σ.table.get? key = some s ∧ s.needsUpdate = true ∧ key ∉ σ.pending

theorem IsOpen.modify {key other : SymbolKey} {σ : Sweep} {f : StorySymbol → StorySymbol}
    (h : IsOpen key σ) (hkey : ∀ s, (f s).key = s.key) (hne : key ≠ other) :
    IsOpen key (σ.modify other f) := by
  have hget : (σ.modify other f).table.get? key = σ.table.get? key :=
    get?_modify_of_ne hkey hne
  unfold IsOpen IsResolved at h ⊢
  rw [hget]
  exact h

theorem IsOpen.remember {key other : SymbolKey} {σ : Sweep} {failures : Failures}
    (h : IsOpen key σ) (hne : key ≠ other) : IsOpen key (σ.remember other failures) := by
  unfold IsOpen IsResolved at h ⊢
  rw [Sweep.table_remember]
  refine h.imp id fun ⟨s, hget, hflag, hpending⟩ => ⟨s, hget, hflag, fun hmem => ?_⟩
  rcases Sweep.mem_pending_remember.1 hmem with hmem | ⟨heq, -⟩
  · exact hpending hmem
  · exact hne heq

/-- **A walk finds a complete candidate.** Until then the symbol stays open, whatever else is
walked. -/
theorem isOpen_resolve (weights : Weights) {table : SymbolTable} {wanted : SymbolKey}
    {s₀ : StorySymbol} {index₀ : Nat} {d₀ : SymbolDefinition}
    (hget₀ : table.get? wanted = some s₀) (hcandidate : (index₀, d₀) ∈ s₀.candidates weights)
    (hoffers : table.OffersAll d₀) (room : Nat) (key : SymbolKey) (σ : Sweep)
    (hroom : σ.table.keys.length ≤ room) (hevolves : table.Evolves σ.table)
    (hopen : IsOpen wanted σ) :
    IsOpen wanted ((resolve weights room [] key).run σ).2
      ∧ (key = wanted → IsResolved wanted ((resolve weights room [] key).run σ).2) := by
  let P : Sweep → Prop := fun σ => table.Evolves σ.table ∧ IsOpen wanted σ
  let motive : List SymbolKey → SymbolKey → Sweep → Resolution → Sweep → Prop :=
    fun chain key σ _ σ' => P σ →
      IsOpen wanted σ' ∧ (key = wanted → wanted ∉ chain → IsResolved wanted σ')
  have hkeep {chain key σ verdict σ'}
      (hR : Attempt chain key σ verdict σ' ∧ motive chain key σ verdict σ') (hP : P σ) : P σ' :=
    ⟨hP.1.trans hR.1.evolves, (hR.2 hP).1⟩
  have hwalk_open {chain key σ s found failures σ'}
      (hwalked : Walked (fun other σ verdict σ' => Attempt (key :: chain) other σ verdict σ'
        ∧ motive (key :: chain) other σ verdict σ') weights chain key σ s found failures σ')
      (hP : P σ) : IsOpen wanted σ' :=
    (hwalked.searches.keep (P := P) (fun _ _ _ _ => hkeep) hP).2
  -- The walk of the wanted symbol comes upon the complete candidate.
  have hfound {chain key σ s failures σ'}
      (hwalked : Walked (fun other σ verdict σ' => Attempt (key :: chain) other σ verdict σ'
        ∧ motive (key :: chain) other σ verdict σ') weights chain key σ s none failures σ')
      (hP : P σ) : key ≠ wanted := by
    rintro rfl
    obtain ⟨t, ht, hst⟩ := hP.1.symbol hget₀
    rw [hwalked.get?_eq, Option.some.injEq] at ht
    subst ht
    have hmem : (index₀, d₀) ∈ s.candidates weights :=
      StorySymbol.candidates_eq_of_evidence hst.evidence_eq weights ▸ hcandidate
    rcases hwalked.searches.none_found (P := P) (fun _ _ _ _ => hkeep) hP _ hmem with
      hpartial | ⟨σ₁, σ₂, why, hP₁, hcompletes⟩
    · exact absurd hpartial (by simp [hoffers.1])
    · have hok := hcompletes.ne_error (fun _ _ _ _ hR => hR.1)
        (fun p hp hsource => ?unknown) fun p hp ref href =>
          (hoffers.2 p hp ref href).imp fun _ h => h.evolves hP₁.1
      · obtain ⟨types, hok⟩ := hok
        cases hok
      · exact SymbolDefinition.source_ne_unknown hoffers.1 hp hsource
  have h := (attempt_induction weights (motive := motive)
    ?known ?adopted ?pending ?blocked ?undefined ?dead room key σ hroom).2 ⟨hevolves, hopen⟩
  · exact ⟨h.1, fun heq => h.2 heq List.not_mem_nil⟩
  case known =>
    intro chain key σ verdict hwalk hP
    refine ⟨hP.2, fun heq hfresh => ?_⟩
    subst heq
    rcases hP.2 with hresolved | ⟨s, hget, hflag, hpending⟩
    · exact hresolved
    · rw [toWalk_eq_ok_iff.2 ⟨hget, hflag, hpending, hfresh⟩] at hwalk
      cases hwalk
  case adopted =>
    intro chain key σ s σ' index d types failures hwalked hP
    have hopen' := hwalk_open hwalked hP
    by_cases heq : key = wanted
    · subst heq
      have hresolved : IsResolved key (σ'.modify key fun s => s.adopt index d types) :=
        ⟨_, hwalked.get?_modify fun _ => rfl, rfl, s.resolution_adopt index d types⟩
      exact ⟨Or.inl hresolved, fun _ _ => hresolved⟩
    · exact ⟨hopen'.modify (fun _ => rfl) (Ne.symm heq), fun h => absurd h heq⟩
  case pending =>
    intro chain key σ s σ' failures hwalked _ hP
    have hopen' := hwalk_open hwalked hP
    have hne : key ≠ wanted := hfound hwalked hP
    have hmodify := hopen'.modify StorySymbol.key_fallBack hne.symm
    exact ⟨hmodify.remember hne.symm, fun h => absurd h hne⟩
  case blocked =>
    intro chain key σ s σ' failures hwalked _ _ _ hP
    have hopen' := hwalk_open hwalked hP
    exact ⟨hopen', fun h => absurd h (hfound hwalked hP)⟩
  case undefined =>
    intro chain key σ s hwalk hnone _ hP
    obtain ⟨hget, -⟩ := toWalk_eq_ok_iff.1 hwalk
    have hne : key ≠ wanted := by
      rintro rfl
      obtain ⟨t, ht, hst⟩ := hP.1.symbol hget₀
      rw [hget, Option.some.injEq] at ht
      subst ht
      rw [← StorySymbol.candidates_eq_of_evidence hst.evidence_eq, hnone] at hcandidate
      cases hcandidate
    exact ⟨hP.2.modify (fun _ => rfl) hne.symm, fun h => absurd h hne⟩
  case dead =>
    intro chain key σ s σ' failures hwalked _ _ _ hP
    have hopen' := hwalk_open hwalked hP
    have hne : key ≠ wanted := hfound hwalked hP
    exact ⟨hopen'.modify (fun _ => rfl) hne.symm, fun h => absurd h hne⟩

end Resolving

namespace SymbolTable

variable {table : SymbolTable} {key : SymbolKey} {s t : StorySymbol}

/-- **A flagged symbol with a complete candidate is resolved by an update.** -/
theorem resolved_of_complete (weights : Weights) {index : Nat} {d : SymbolDefinition}
    (hget : table.get? key = some s) (hflag : s.needsUpdate = true)
    (hcandidate : (index, d) ∈ s.candidates weights) (hoffers : table.OffersAll d) :
    ∃ t, (table.update weights).1.get? key = some t ∧ t.resolution = .resolved := by
  have hfirst : Resolving.IsResolved key (table.sweep weights) := by
    refine (sweep_induction table weights
      (P := fun σ => table.Evolves σ.table ∧ Resolving.IsOpen key σ)
      (Q := fun other σ => other = key → Resolving.IsResolved key σ)
      ⟨.refl table, Or.inr ⟨s, hget, hflag, List.not_mem_nil⟩⟩
      fun other σ hroom hP => ?_).2 key (mem_flagged_of_get? hget hflag) rfl
    have hevolves := evolves_resolve weights table.size other σ hroom
    obtain ⟨hopen, hresolved⟩ := Resolving.isOpen_resolve weights hget hcandidate hoffers
      table.size other σ hroom hP.1 hP.2
    refine ⟨⟨hP.1.trans hevolves, hopen⟩, hresolved, fun _ hQ heq => ?_⟩
    obtain ⟨t, ht, hsettled, hrest⟩ := hQ heq
    exact ⟨t, hevolves.get?_of_unflagged ht hsettled, hsettled, hrest⟩
  obtain ⟨t, ht, hsettled, hresolved⟩ := hfirst
  have hsecond := (evolves_sweep (table.sweep weights).table weights).get?_of_unflagged ht hsettled
  exact ⟨{ t with needsUpdate := false }, by rw [get?_update, hsecond]; rfl, hresolved⟩

end SymbolTable

/-! ## Without complete candidates nothing is adopted

The first adoption of an update needs a definition all of whose references were resolved before. -/

namespace StorySymbol

theorem resolution_ne_resolved {s : StorySymbol} (hsystem : s.isSystem = false)
    (hcanonical : s.canonical = none) : s.resolution ≠ .resolved := by
  cases hdead : s.isDead <;> simp [resolution, hsystem, hcanonical, hdead]

end StorySymbol

namespace Resolving

open SymbolTable

/-- No symbol that the table has flagged is resolved. -/
def NoneResolved (table : SymbolTable) (σ : Sweep) : Prop :=
  ∀ key s t, table.get? key = some s → s.needsUpdate = true → σ.table.get? key = some t →
    t.resolution ≠ .resolved

/-- What is offered while none of the flagged symbols is resolved was offered before. -/
theorem NoneResolved.offers {table : SymbolTable} {σ : Sweep} (h : NoneResolved table σ)
    (hevolves : table.Evolves σ.table) {ref : ParameterRef} {type : ValueType}
    (hoffer : σ.table.Offers ref type) : table.Offers ref type := by
  obtain ⟨t, p, ht, hsettled, hresolved, hrest⟩ := hoffer
  obtain ⟨s, hs, hst⟩ := hevolves.exists_before ht
  cases hflag : s.needsUpdate with
  | true => exact absurd hresolved (h _ _ _ hs hflag ht)
  | false =>
    rw [hst.eq_of_unflagged hflag] at hsettled hresolved hrest
    exact ⟨s, p, hs, hsettled, hresolved, hrest⟩

theorem NoneResolved.modify {table : SymbolTable} {σ : Sweep} {key : SymbolKey} {s : StorySymbol}
    {f : StorySymbol → StorySymbol} (h : NoneResolved table σ) (hkey : ∀ s, (f s).key = s.key)
    (hget : σ.table.get? key = some s) (hf : (f s).resolution ≠ .resolved) :
    NoneResolved table (σ.modify key f) := by
  intro other s' t hs' hflag ht
  rw [Sweep.table_modify, get?_modify hkey] at ht
  split at ht
  · rw [hget, Option.map_some, Option.some.injEq] at ht
    exact ht ▸ hf
  · exact h _ _ _ hs' hflag ht

/-- **Without complete candidates nothing is adopted.** -/
theorem noneResolved_resolve (weights : Weights) {table : SymbolTable}
    (hflagged : ∀ key s, table.get? key = some s → s.needsUpdate = true →
      s.isSystem = false ∧ ∀ index d, (index, d) ∈ s.candidates weights → ¬ table.OffersAll d)
    (room : Nat) (key : SymbolKey) (σ : Sweep) (hroom : σ.table.keys.length ≤ room)
    (hevolves : table.Evolves σ.table) (hnone : NoneResolved table σ) :
    NoneResolved table ((resolve weights room [] key).run σ).2 := by
  let P : Sweep → Prop := fun σ => table.Evolves σ.table ∧ NoneResolved table σ
  have hkeep {chain : List SymbolKey} {key : SymbolKey} {σ σ' : Sweep} {verdict : Resolution}
      (hR : Attempt chain key σ verdict σ' ∧ (P σ → NoneResolved table σ')) (hP : P σ) : P σ' :=
    ⟨hP.1.trans hR.1.evolves, hR.2 hP⟩
  have hsystem {key : SymbolKey} {σ : Sweep} {s : StorySymbol} (hevolves : table.Evolves σ.table)
      (hget : σ.table.get? key = some s) (hflag : s.needsUpdate = true) :
      s.isSystem = false ∧ ∀ index d, (index, d) ∈ s.candidates weights → ¬ table.OffersAll d := by
    obtain ⟨s₀, hs₀, hst⟩ := hevolves.exists_before hget
    have hflag₀ : s₀.needsUpdate = true := by
      by_contra hsettled
      rw [hst.eq_of_unflagged (by simpa using hsettled)] at hflag
      exact hsettled hflag
    rw [StorySymbol.isSystem_eq_of_evidence hst.evidence_eq,
      StorySymbol.candidates_eq_of_evidence hst.evidence_eq]
    exact hflagged key s₀ hs₀ hflag₀
  refine (attempt_induction weights
    (motive := fun _ _ σ _ σ' => P σ → NoneResolved table σ')
    ?known ?adopted ?pending ?blocked ?undefined ?dead room key σ hroom).2 ⟨hevolves, hnone⟩
  case known => exact fun _ hP => hP.2
  case adopted =>
    intro chain key σ s σ' index d types failures hwalked hP
    have hP' : P σ' := hwalked.searches.keep (P := P) (fun _ _ _ _ => hkeep) hP
    obtain ⟨hcandidate, hpartial, σ₁, hcompletes⟩ := hwalked.searches.found_eq
    have hgives := hcompletes.gives fun _ _ _ _ hR => hR.1
    -- The adopted definition would have been complete at the start.
    refine absurd ⟨hpartial, fun p hp ref hsource => ?_⟩
      ((hsystem hP.1 hwalked.get?_eq hwalked.flagged).2 index d hcandidate)
    obtain ⟨type, hoffer⟩ := exists_offers_of_gives hgives hp hsource
    exact ⟨type, hP'.2.offers hP'.1 hoffer⟩
  case pending =>
    intro chain key σ s σ' failures hwalked _ hP
    have hP' : P σ' := hwalked.searches.keep (P := P) (fun _ _ _ _ => hkeep) hP
    have hs := (hsystem hP.1 hwalked.get?_eq hwalked.flagged).1
    have hmodify := hP'.2.modify StorySymbol.key_fallBack hwalked.get?_end
      (StorySymbol.resolution_ne_resolved hs rfl)
    unfold NoneResolved
    rw [Sweep.table_remember]
    exact hmodify
  case blocked =>
    intro chain key σ s σ' failures hwalked _ _ _ hP
    exact (hwalked.searches.keep (P := P) (fun _ _ _ _ => hkeep) hP).2
  case undefined =>
    intro chain key σ s hwalk hnone _ hP
    obtain ⟨hget, hflag, -⟩ := toWalk_eq_ok_iff.1 hwalk
    exact hP.2.modify (fun _ => rfl) hget
      (StorySymbol.resolution_ne_resolved (hsystem hP.1 hget hflag).1 rfl)
  case dead =>
    intro chain key σ s σ' failures hwalked _ _ _ hP
    have hP' : P σ' := hwalked.searches.keep (P := P) (fun _ _ _ _ => hkeep) hP
    have hs := (hsystem hP.1 hwalked.get?_eq hwalked.flagged).1
    exact hP'.2.modify (fun _ => rfl) hwalked.get?_end
      (StorySymbol.resolution_ne_resolved hs rfl)

end Resolving

namespace SymbolTable

variable {table : SymbolTable} {key : SymbolKey} {s t : StorySymbol} {weights : Weights}

theorem unresolved_of_incomplete
    (hflagged : ∀ key s, table.get? key = some s → s.needsUpdate = true →
      s.isSystem = false ∧ ∀ index d, (index, d) ∈ s.candidates weights → ¬ table.OffersAll d)
    (hcanonical : ∀ key s, table.get? key = some s → s.needsUpdate = true → s.canonical = none)
    (hget : table.get? key = some s) (hflag : s.needsUpdate = true)
    (ht : (table.update weights).1.get? key = some t) : t.resolution ≠ .resolved := by
  have hstart : Resolving.NoneResolved table { table } := by
    intro key s t hs hflag ht
    rw [hs, Option.some.injEq] at ht
    subst ht
    exact StorySymbol.resolution_ne_resolved (hflagged key s hs hflag).1 (hcanonical key s hs hflag)
  have hsweep (b : SymbolTable) (hevolves : table.Evolves b)
      (hnone : Resolving.NoneResolved table { table := b }) :
      Resolving.NoneResolved table (b.sweep weights) := by
    refine (sweep_induction b weights
      (P := fun σ => table.Evolves σ.table ∧ Resolving.NoneResolved table σ)
      (Q := fun _ _ => True) ⟨hevolves, hnone⟩ fun other σ hroom hP => ?_).1.2
    refine ⟨⟨hP.1.trans (evolves_resolve weights b.size other σ hroom), ?_⟩, trivial,
      fun _ _ => trivial⟩
    exact Resolving.noneResolved_resolve weights hflagged b.size other σ hroom hP.1 hP.2
  have hfirst := hsweep table (.refl table) hstart
  have hsecond := hsweep (table.sweep weights).table (table.evolves_sweep weights) hfirst
  rw [get?_update] at ht
  obtain ⟨u, hu, rfl⟩ := Option.map_eq_some_iff.1 ht
  exact hsecond key s u hget hflag hu

/-! ## Exactly when a resolution is lost

Trying again flags what is pending and runs one more update. By the two sections above, this
resolves something just if a pending symbol has a complete candidate. -/

theorem isSystem_of_pending (hpending : s.resolution = .pending) : s.isSystem = false := by
  cases hsystem : s.isSystem with
  | false => rfl
  | true => cases hdead : s.isDead <;> simp [StorySymbol.resolution, hsystem, hdead] at hpending

/-- What is flagged after flagging the pending symbols of an updated table was pending. -/
theorem flagged_retryPending
    (hget : (table.update weights).1.retryPending.get? key = some t) (hflag : t.needsUpdate = true) :
    ∃ s, (table.update weights).1.get? key = some s ∧ s.resolution = .pending ∧ t = s.invalidate := by
  rw [get?_retryPending] at hget
  obtain ⟨s, hs, rfl⟩ := Option.map_eq_some_iff.1 hget
  by_cases hpending : s.resolution = .pending
  · exact ⟨s, hs, hpending, if_pos hpending⟩
  · rw [if_neg hpending, not_needsUpdate_update hs] at hflag
    cases hflag

theorem offers_retryPending {ref : ParameterRef} {type : ValueType} :
    table.retryPending.Offers ref type ↔ table.Offers ref type := by
  unfold Offers
  constructor
  · rintro ⟨t, p, ht, hsettled, hresolved, hrest⟩
    rw [get?_retryPending] at ht
    obtain ⟨s, hs, rfl⟩ := Option.map_eq_some_iff.1 ht
    by_cases hpending : s.resolution = .pending
    · simp [hpending, StorySymbol.invalidate, isSystem_of_pending hpending] at hsettled
    · rw [if_neg hpending] at hsettled hresolved hrest
      exact ⟨s, p, hs, hsettled, hresolved, hrest⟩
  · rintro ⟨s, p, hs, hsettled, hresolved, hrest⟩
    refine ⟨s, p, ?_, hsettled, hresolved, hrest⟩
    rw [get?_retryPending, hs, Option.map_some, if_neg (by simp [hresolved])]

/-- Where what is resolved is settled, a definition is complete just if all it refers to is
offered. -/
theorem isComplete_iff {d : SymbolDefinition}
    (hsettled : ∀ {key s}, table.get? key = some s → s.resolution = .resolved →
      s.needsUpdate = false) : table.IsComplete d ↔ table.OffersAll d := by
  refine and_congr_right fun _ => forall₂_congr fun p _ => forall₂_congr fun ref _ => ?_
  constructor
  · rintro ⟨s, q, hget, hresolved, hq, hknown⟩
    exact ⟨q.type, s, q, hget, hsettled hget hresolved, hresolved, hq, rfl, hknown⟩
  · rintro ⟨type, s, q, hget, -, hresolved, hq, rfl, hknown⟩
    exact ⟨s, q, hget, hresolved, hq, hknown⟩

theorem isComplete_update {d : SymbolDefinition} :
    (table.update weights).1.IsComplete d ↔ (table.update weights).1.OffersAll d :=
  isComplete_iff fun hget _ => not_needsUpdate_update hget

theorem offersAll_retryPending {d : SymbolDefinition} :
    (table.update weights).1.retryPending.OffersAll d ↔ (table.update weights).1.IsComplete d := by
  rw [isComplete_update]
  refine and_congr_right fun _ => forall₂_congr fun p _ => forall₂_congr fun ref _ => ?_
  exact exists_congr fun type => offers_retryPending

/-- A pending symbol of an updated table is flagged when it is tried again. -/
theorem get?_retryPending_of_pending (hget : (table.update weights).1.get? key = some s)
    (hpending : s.resolution = .pending) :
    (table.update weights).1.retryPending.get? key = some s.invalidate
      ∧ s.invalidate.needsUpdate = true := by
  rw [get?_retryPending, hget, Option.map_some, if_pos hpending]
  exact ⟨rfl, by simp [StorySymbol.invalidate, isSystem_of_pending hpending]⟩

/-- Where nothing was lost, trying again resolves nothing more. -/
theorem unresolved_of_nothingLost (hlost : (table.update weights).1.NothingLost weights)
    (hget : (table.update weights).1.get? key = some s) (hpending : s.resolution = .pending)
    (ht : ((table.update weights).1.retryPending.update weights).1.get? key = some t) :
    t.resolution ≠ .resolved := by
  obtain ⟨hretry, hretry_flag⟩ := get?_retryPending_of_pending hget hpending
  refine unresolved_of_incomplete (fun key t ht hflag => ?_) (fun key t ht hflag => ?_) hretry
    hretry_flag ht
  · obtain ⟨s, hs, hpending, rfl⟩ := flagged_retryPending ht hflag
    refine ⟨(isSystem_invalidate s).trans (isSystem_of_pending hpending), fun index d hd => ?_⟩
    rw [StorySymbol.candidates_eq_of_evidence s.evidence_invalidate] at hd
    exact fun hoffers => hlost key s hs hpending index d hd (offersAll_retryPending.1 hoffers)
  · obtain ⟨s, hs, hpending, rfl⟩ := flagged_retryPending ht hflag
    exact canonical_invalidate (isSystem_of_pending hpending)

/-- **An update has lost nothing just if trying again resolves nothing more.** -/
theorem nothing_lost_iff (table : SymbolTable) (weights : Weights) :
    (table.update weights).1.NothingLost weights
      ↔ ∀ key s t, (table.update weights).1.get? key = some s → s.resolution = .pending →
          ((table.update weights).1.retryPending.update weights).1.get? key = some t →
          t.resolution ≠ .resolved := by
  constructor
  · exact fun hlost key s t hget hpending ht => unresolved_of_nothingLost hlost hget hpending ht
  · intro hretry key s hget hpending index d hd hcomplete
    obtain ⟨hget', hflag'⟩ := get?_retryPending_of_pending hget hpending
    rw [← StorySymbol.candidates_eq_of_evidence s.evidence_invalidate] at hd
    obtain ⟨t, ht, hresolved⟩ :=
      resolved_of_complete weights hget' hflag' hd (offersAll_retryPending.2 hcomplete)
    exact hretry key s t hget hpending ht hresolved

/-- A place that writes to a database. -/
def written (start : Nat) (source : ParameterSource) : SymbolDefinition :=
  { goal := "G", span := ⟨start, start⟩, start, kind := .database, access := .write
    parameters := [{ name := "_v", source, flow := none }] }

/-- A place that copies another database. -/
def copied (start : Nat) (name : String) : SymbolDefinition :=
  written start (.reference ⟨⟨name, 1⟩, 0⟩)

/-- A database that is to be resolved. -/
def database (name : String) (definitions : List SymbolDefinition) : StorySymbol :=
  { StorySymbol.ofKey ⟨name, 1⟩ with kind := .database, definitions }

/-- Two circles of databases. Each has one that is also written with a variable without type, and
the second circle hangs on the first. -/
def twoCircles : SymbolTable :=
  ⟨[database "DB_Y" [copied 1 "DB_Z", written 2 (.explicit .integer)],
    database "DB_Z" [copied 1 "DB_X"],
    database "DB_X" [written 1 .unknown, copied 2 "DB_Y"],
    database "DB_YY" [copied 1 "DB_ZZ", copied 2 "DB_Z"],
    database "DB_ZZ" [copied 1 "DB_XX"],
    database "DB_XX" [written 1 .unknown, copied 2 "DB_YY"]]⟩

/-- **Two sweeps are too few.** The first sweep resolves the first circle and leaves the second one
pending. In the second sweep `DB_XX` is pending below the chain that starts from `DB_YY`. It is not
remembered, but one step up it is forgotten that the chain had a part in that, so `DB_ZZ` is. -/
theorem resolution_can_be_lost :
    ¬ ∀ (table : SymbolTable) (weights : Weights),
      (∀ s ∈ table.symbols, s.isSystem = false → s.needsUpdate = true) →
      (table.update weights).1.NothingLost weights := by
  intro h
  have hlost := h twoCircles [] (by decide)
  have hpending : ((twoCircles.update []).1.get? ⟨"DB_ZZ", 1⟩).map (·.resolution)
      = some .pending := by cbv
  have hresolved : (((twoCircles.update []).1.retryPending.update []).1.get? ⟨"DB_ZZ", 1⟩).map
      (·.resolution) = some .resolved := by cbv
  obtain ⟨s, hs, hpending⟩ := Option.map_eq_some_iff.1 hpending
  obtain ⟨t, ht, hresolved⟩ := Option.map_eq_some_iff.1 hresolved
  exact unresolved_of_nothingLost hlost hs hpending ht hresolved

end SymbolTable

end StoryCheck
