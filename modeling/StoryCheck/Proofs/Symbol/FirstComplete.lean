import Mathlib.Logic.Relation
import StoryCheck.Proofs.Symbol.GoalOrder
import StoryCheck.Proofs.Symbol.LostResolution

/-!
# The first complete definition wins

A symbol adopts the first of its candidates that is complete, as things stand while it is walked.
This module asks whether that is still the first complete one when all is done. A candidate that
leads back to its own symbol may well be complete only because the symbol was resolved without it.
Of the others one expects that none that was passed over is complete in the end. That is true of each
sweep, and of an update with one exception: what the first sweep has passed over may be completed
by the second.

## The argument

* **`DoesWithout`** — in the end a symbol is resolved, and the definitions that it rests on need none
  of a chain. An attempt below that chain resolves it (`Accords.resolves`): the candidate that it has
  adopted in the end cannot fail, since what the candidate refers to does without the chain and
  without the symbol (`DoesWithout.lender`). Nor is a memory in the way, since a symbol that is
  remembered as pending is not resolved in the same sweep (`remembersFlagged_sweep`).
* **`Walked.finds`** — so a candidate is found if it is complete in the end and what it refers to
  does without the chain.
* **`Walked.leadsTo_of_passesOver`** — each symbol of a chain leads to the next one. If one of them
  were behind what a candidate refers to, the candidate would lead back to its symbol.
* **`Sound.incomplete_of_passesOver_sweep`** — a sweep.
* **`first_complete_wins_iff`**, **`first_complete_can_lose`** — an update, and the exception.
-/

namespace StoryCheck

open Syntax

/-! ## Passing over

To pass over a definition is to adopt one behind it. Whether the one in front was complete is asked
at the end of the update, by what the symbols are then, with the exception of those that lead back
to the symbol itself. -/

namespace SymbolDefinition

variable {weights : Weights} {c d : SymbolDefinition}

/-- A definition stands before another one: in a goal of less weight, or in one of the same weight
further up. -/
def Precedes (weights : Weights) (d c : SymbolDefinition) : Prop :=
  weights.of d.goal < weights.of c.goal
    ∨ (weights.of d.goal = weights.of c.goal ∧ d.span.start < c.span.start)

theorem Precedes.not_ranksBefore (h : Precedes weights d c) : ranksBefore weights c d = false := by
  rw [Bool.eq_false_iff, ne_eq, ranksBefore_iff]
  unfold Precedes at h
  omega

end SymbolDefinition

namespace StorySymbol

variable {s t : StorySymbol} {weights : Weights} {d : SymbolDefinition}

/-- The symbol has adopted a definition although the given candidate stands before it. -/
def PassesOver (s : StorySymbol) (weights : Weights) (d : SymbolDefinition) : Prop :=
  ∃ index c, (index, d) ∈ s.candidates weights ∧ s.canonicalDefinition? = some c
    ∧ d.Precedes weights c

theorem pairwise_candidates (s : StorySymbol) (weights : Weights) :
    (s.candidates weights).Pairwise fun a b =>
      SymbolDefinition.ranksBefore weights a.2 b.2 = true := by
  let le (a b : Nat × SymbolDefinition) : Bool := SymbolDefinition.ranksBefore weights a.2 b.2
  have htrans (a b c) (hab : le a b) (hbc : le b c) : le a c :=
    SymbolDefinition.ranksBefore_trans a.2 b.2 c.2 hab hbc
  have htotal (a b) : le a b || le b a := SymbolDefinition.ranksBefore_total a.2 b.2
  exact List.pairwise_mergeSort htrans htotal _

theorem not_passesOver (hcanonical : s.canonical = none) : ¬ s.PassesOver weights d := by
  rintro ⟨-, c, -, hc, -⟩
  simp [canonicalDefinition?, hcanonical] at hc

end StorySymbol

namespace SymbolTable

variable {table a b : SymbolTable} {key target source : SymbolKey} {s : StorySymbol}
  {d : SymbolDefinition} {weights : Weights}

/-- A definition of the one symbol takes a type from the other. -/
def RefersTo (table : SymbolTable) (source target : SymbolKey) : Prop :=
  ∃ s, table.get? source = some s ∧ ∃ d ∈ s.definitions, target ∈ d.references

/-- Following references, one comes from the definition to the symbol. -/
def LeadsTo (table : SymbolTable) (d : SymbolDefinition) (key : SymbolKey) : Prop :=
  ∃ first ∈ d.references, Relation.ReflTransGen table.RefersTo first key

/-- No resolved symbol has passed over a definition that is complete, unless that definition leads
back to the symbol. -/
def FirstCompleteWins (table : SymbolTable) (weights : Weights) : Prop :=
  ∀ key s d, table.get? key = some s → s.isSystem = false → s.resolution = .resolved →
    s.PassesOver weights d → ¬ table.LeadsTo d key → ¬ table.IsComplete d

/-- References do not change when symbols evolve. -/
theorem Evolves.refersTo_eq (h : a.Evolves b) : b.RefersTo = a.RefersTo := by
  funext source target
  refine propext ⟨?_, ?_⟩
  · rintro ⟨t, ht, d, hd, href⟩
    obtain ⟨s, hs, hst⟩ := h.exists_before ht
    rw [StorySymbol.definitions_eq_of_evidence hst.evidence_eq] at hd
    exact ⟨s, hs, d, hd, href⟩
  · rintro ⟨s, hs, d, hd, href⟩
    obtain ⟨t, ht, hst⟩ := h.symbol hs
    rw [← StorySymbol.definitions_eq_of_evidence hst.evidence_eq] at hd
    exact ⟨t, ht, d, hd, href⟩

theorem Evolves.leadsTo_iff (h : a.Evolves b) : b.LeadsTo d key ↔ a.LeadsTo d key := by
  rw [LeadsTo, LeadsTo, h.refersTo_eq]

/-- A symbol that adopted a definition takes types only from what it refers to. -/
theorem RefersTo.of_lends (h : table.Lends target source) : table.RefersTo source target := by
  obtain ⟨s, d, hget, hcanonical, href⟩ := h
  obtain ⟨index, -, hd⟩ := Option.bind_eq_some_iff.1 hcanonical
  exact ⟨s, hget, d, List.mem_of_getElem? hd, href⟩

/-- Who takes types from whom follows references. -/
theorem reaches_of_lends {other : SymbolKey} (h : Relation.ReflTransGen table.Lends other key) :
    Relation.ReflTransGen table.RefersTo key other := by
  induction h with
  | refl => exact .refl
  | tail _ hlends ih => exact .head (.of_lends hlends) ih

/-- What is resolved is settled. -/
theorem Sound.settled_of_resolved (h : table.Sound) (hget : table.get? key = some s)
    (hresolved : s.resolution = .resolved) : s.needsUpdate = false := by
  cases hsystem : s.isSystem with
  | true => exact (h.declared hget hsystem).2.1
  | false =>
    obtain ⟨index, d, hjustifies⟩ := h.justified hget hsystem hresolved
    exact (h.adopted hget hsystem hjustifies.canonical).2.1

theorem Sound.isComplete_iff (h : table.Sound) : table.IsComplete d ↔ table.OffersAll d :=
  SymbolTable.isComplete_iff h.settled_of_resolved

end SymbolTable

namespace Resolving

open SymbolTable

variable {R : SymbolKey → Sweep → Resolution → Sweep → Prop} {chain : List SymbolKey}
  {key other : SymbolKey} {σ σ' : Sweep} {weights : Weights}

/-! ## Remembered symbols

What is remembered as pending is not walked again in the sweep, and so keeps its flag until the next
one. -/

/-- Who is remembered as pending is still flagged. -/
def RemembersFlagged (σ : Sweep) : Prop :=
  ∀ key ∈ σ.pending, ∃ s, σ.table.get? key = some s ∧ s.needsUpdate = true

theorem RemembersFlagged.modify {f : StorySymbol → StorySymbol} (h : RemembersFlagged σ)
    (hkey : ∀ s, (f s).key = s.key) (hnot : key ∉ σ.pending) : RemembersFlagged (σ.modify key f) := by
  intro other hmem
  obtain ⟨s, hget, hflag⟩ := h other hmem
  have hne : other ≠ key := fun heq => hnot (heq ▸ hmem)
  exact ⟨s, (get?_modify_of_ne hkey hne).trans hget, hflag⟩

theorem remembersFlagged_resolve (weights : Weights) (room : Nat) (key : SymbolKey) (σ : Sweep)
    (hroom : σ.table.keys.length ≤ room) (h : RemembersFlagged σ) :
    RemembersFlagged ((resolve weights room [] key).run σ).2 := by
  have hkeep {chain : List SymbolKey} {key : SymbolKey} {σ σ' : Sweep} {s : StorySymbol}
      {found : Option Adoption} {failures : Failures}
      (hwalked : Walked (fun other σ verdict σ' => Attempt (key :: chain) other σ verdict σ'
        ∧ (RemembersFlagged σ → RemembersFlagged σ')) weights chain key σ s found failures σ')
      (h : RemembersFlagged σ) : RemembersFlagged σ' :=
    hwalked.searches.keep (P := RemembersFlagged) (fun _ _ _ _ hR => hR.2) h
  refine (attempt_induction weights
    (motive := fun _ _ σ _ σ' => RemembersFlagged σ → RemembersFlagged σ')
    ?known ?adopted ?pending ?blocked ?undefined ?dead room key σ hroom).2 h
  -- What is remembered as pending stays flagged: a walk writes on its own key, which is not
  -- remembered while it lasts, and a pending one is flagged when it is put on record.
  case known => exact fun _ h => h
  case adopted =>
    intro chain key σ s σ' index d types failures hwalked h
    exact (hkeep hwalked h).modify (fun _ => rfl) hwalked.not_pending_end
  case pending =>
    intro chain key σ s σ' failures hwalked _ h other hmem
    rw [Sweep.table_remember]
    rcases Sweep.mem_pending_remember.1 hmem with hmem | ⟨rfl, -⟩
    · exact (hkeep hwalked h).modify StorySymbol.key_fallBack hwalked.not_pending_end other hmem
    · exact ⟨_, hwalked.get?_modify StorySymbol.key_fallBack, hwalked.flagged⟩
  case blocked => exact fun hwalked _ _ _ h => hkeep hwalked h
  case undefined =>
    intro chain key σ s hwalk _ _ h
    have hvisit : RemembersFlagged (σ.visit chain) := h
    exact hvisit.modify StorySymbol.key_waitForDefinition (toWalk_eq_ok_iff.1 hwalk).2.2.1
  case dead =>
    intro chain key σ s σ' failures hwalked _ _ _ h
    exact (hkeep hwalked h).modify (fun _ => rfl) hwalked.not_pending_end

theorem remembersFlagged_sweep (table : SymbolTable) (weights : Weights) :
    RemembersFlagged (table.sweep weights) :=
  (sweep_induction table weights (P := RemembersFlagged) (Q := fun _ _ => True) nofun
    fun key σ hroom hP => ⟨remembersFlagged_resolve weights table.size key σ hroom hP, trivial,
      fun _ _ => trivial⟩).1

/-! ## Attempts in view of the end

`start` is the table of a sweep and `E` what the sweep ends in. -/

/-- In the end the symbol is resolved, and takes no type from the chain, directly or not. -/
structure DoesWithout (E : Sweep) (chain : List SymbolKey) (key : SymbolKey) : Prop where
  resolved : IsResolved key E
  apart : ∀ other ∈ chain, ¬ Relation.ReflTransGen E.table.Lends other key

/-- No symbol that was flagged at the start has passed over a definition that is complete in the end,
unless that definition leads back to the symbol. -/
def IsFair (start : SymbolTable) (E : Sweep) (weights : Weights) (σ : Sweep) : Prop :=
  ∀ key s₀ s d, start.get? key = some s₀ → s₀.needsUpdate = true → σ.table.get? key = some s →
    s.PassesOver weights d → E.table.OffersAll d → E.table.LeadsTo d key

/-- What an attempt below a chain does, in view of the end. -/
structure Accords (start : SymbolTable) (E : Sweep) (weights : Weights) (chain : List SymbolKey)
    (key : SymbolKey) (σ : Sweep) (verdict : Resolution) (σ' : Sweep) : Prop where
  /-- It resolves what can be resolved without the chain. -/
  resolves : DoesWithout E chain key → verdict = .resolved
  /-- It is fair, if each symbol of the chain leads to the one that is attempted. -/
  fair : (∀ other ∈ chain, Relation.ReflTransGen E.table.RefersTo other key) →
    IsFair start E weights σ → IsFair start E weights σ'

/-- What is shown of each attempt: it accords with the end if it lies between start and end. -/
def Foretold (start : SymbolTable) (E : Sweep) (weights : Weights) (chain : List SymbolKey)
    (key : SymbolKey) (σ : Sweep) (verdict : Resolution) (σ' : Sweep) : Prop :=
  start.Evolves σ.table → Stays [] σ' E → Accords start E weights chain key σ verdict σ'

/-- An attempt with its frame, in view of the end. -/
abbrev AttemptForetold (start : SymbolTable) (E : Sweep) (weights : Weights)
    (chain : List SymbolKey) (key : SymbolKey) (σ : Sweep) (verdict : Resolution) (σ' : Sweep) :
    Prop :=
  Attempt chain key σ verdict σ' ∧ Foretold start E weights chain key σ verdict σ'

variable {start : SymbolTable} {E : Sweep} {s : StorySymbol} {found : Option Adoption}
  {failures : Failures}

/-- What lends to a symbol that does without a chain does without the chain and the symbol. -/
theorem DoesWithout.lender (h : DoesWithout E chain key) (hsound : E.table.Sound)
    (hlends : E.table.Lends other key) : DoesWithout E (key :: chain) other where
  resolved := by
    obtain ⟨-, -, -, -, -, -, ref, type, rfl, s, -, hget, hsettled, hresolved, -⟩ :=
      hsound.of_lends hlends
    exact ⟨s, hget, hsettled, hresolved⟩
  apart := by
    intro member hmem hbehind
    rcases List.mem_cons.1 hmem with rfl | hmem
    · exact hsound.wellFounded.transGen.irrefl.irrefl _ (.tail' hbehind hlends)
    · exact h.apart member hmem (hbehind.tail hlends)

theorem IsFair.modify {f : StorySymbol → StorySymbol} (h : IsFair start E weights σ)
    (hkey : ∀ s, (f s).key = s.key) (hget : σ.table.get? key = some s)
    (hf : ∀ d, (f s).PassesOver weights d → E.table.OffersAll d → E.table.LeadsTo d key) :
    IsFair start E weights (σ.modify key f) := by
  intro other s₀ t d hs₀ hflag ht
  rw [Sweep.table_modify, get?_modify hkey] at ht
  split at ht
  · next heq =>
    rw [hget, Option.map_some, Option.some.injEq] at ht
    exact heq ▸ ht ▸ hf d
  · exact h other s₀ t d hs₀ hflag ht

theorem IsFair.of_table (h : IsFair start E weights σ) (htable : σ'.table = σ.table) :
    IsFair start E weights σ' := by
  unfold IsFair
  rw [htable]
  exact h

section Walk

/-- All attempts in a walk between start and end accord with the end. -/
theorem Walked.accords
    (hwalked : Walked (AttemptForetold start E weights (key :: chain)) weights chain key σ s
      found failures σ')
    (hstart : start.Evolves σ.table) (hend : Stays [] σ' E) :
    Searches (fun other σ₁ verdict σ₂ => Attempt (key :: chain) other σ₁ verdict σ₂
      ∧ Stays [] σ₂ E ∧ E.table.RefersTo key other
      ∧ Accords start E weights (key :: chain) other σ₁ verdict σ₂)
      (s.candidates weights) {} (σ.visit chain) found failures σ' := by
  -- An attempt of the walk lies between start and end because the walk does.
  refine (hwalked.searches.located fun _ _ _ _ h => h.1.toStays).mono fun other σ₁ verdict σ₂ => ?_
  rintro ⟨⟨hattempt, hforetold⟩, ⟨⟨index, d⟩, hcandidate, href⟩, hbehind, hbefore⟩
  obtain ⟨t, ht, hst⟩ := hend.evolves.symbol hwalked.get?_end
  have hd : d ∈ t.definitions := by
    rw [StorySymbol.definitions_eq_of_evidence hst.evidence_eq]
    exact List.mem_of_getElem? (StorySymbol.mem_candidates.1 hcandidate).1
  exact ⟨hattempt, hbefore.root.trans hend, ⟨t, ht, d, hd, href⟩,
    hforetold (hstart.trans hbehind.evolves) (hbefore.root.trans hend)⟩

/-- **What is complete in the end is found**, or something that does not come after it, if it does
without the chain. -/
theorem Walked.finds
    (hwalked : Walked (AttemptForetold start E weights (key :: chain)) weights chain key σ s
      found failures σ')
    (hstart : start.Evolves σ.table) (hend : Stays [] σ' E) {index : Nat} {d : SymbolDefinition}
    (hcandidate : (index, d) ∈ s.candidates weights) (hoffers : E.table.OffersAll d)
    (hwithout : ∀ target ∈ d.references, DoesWithout E (key :: chain) target) :
    ∃ index c types, found = some (index, c, types)
      ∧ SymbolDefinition.ranksBefore weights c d = true := by
  by_contra hbefore
  have hself (a : Nat × SymbolDefinition) : SymbolDefinition.ranksBefore weights a.2 a.2 = true := by
    simpa using SymbolDefinition.ranksBefore_total a.2 a.2
  rcases (hwalked.accords hstart hend).passed hself (s.pairwise_candidates weights) hcandidate
    fun index c types hfound hranks => hbefore ⟨index, c, types, hfound, hranks⟩ with
    hpartial | ⟨σ₁, σ₂, why, hcompletes⟩
  · exact absurd hpartial (by simp [hoffers.1])
  · refine absurd (hcompletes.exists_types
      (fun p hp => SymbolDefinition.source_ne_unknown hoffers.1 hp) ?_) (by simp)
    rintro p hp ref hsource σ₁ verdict σ₂ ⟨hattempt, hend₂, -, haccords⟩
    have href := SymbolDefinition.mem_references.2 ⟨p, hp, ref, hsource, rfl⟩
    have hresolved := haccords.resolves (hwithout ref.symbol href)
    -- What is settled during the search is settled for good, with its types.
    obtain ⟨t, ht, hsettled, -⟩ := hattempt.resolved hresolved
    obtain ⟨type, hoffer⟩ := hoffers.2 p hp ref hsource
    have htype := typeAt_of_offers hoffer
    rw [typeAt, hend₂.evolves.get?_of_unflagged ht hsettled, ← ht] at htype
    obtain ⟨-, -, -, -, -, -, -, hknown⟩ := hoffer
    exact ⟨hresolved, by rw [typeAt, htype]; exact hknown⟩

/-- A walk that finds nothing is one of a symbol that cannot be resolved without the chain. -/
theorem Walked.not_doesWithout
    (hwalked : Walked (AttemptForetold start E weights (key :: chain)) weights chain key σ s
      none failures σ')
    (hsound : start.Sound) (hsound_end : E.table.Sound) (hstart : start.Evolves σ.table)
    (hend : Stays [] σ' E) : ¬ DoesWithout E chain key := by
  intro h
  obtain ⟨t, ht, -, hresolved⟩ := h.resolved
  obtain ⟨t', ht', hst⟩ := hend.evolves.symbol hwalked.get?_end
  obtain rfl : t' = t := Option.some.inj (ht'.symm.trans ht)
  obtain ⟨s₀, hs₀, hs₀s⟩ := hstart.exists_before hwalked.get?_eq
  -- Declared symbols are never flagged, so they are not walked.
  have hsystem : t'.isSystem = false := by
    rw [StorySymbol.isSystem_eq_of_evidence (hst.evidence_eq.trans hs₀s.evidence_eq)]
    exact hsound.not_declared hs₀ (hs₀s.flagged_before hwalked.flagged)
  -- The candidate that it has adopted in the end does without the chain.
  obtain ⟨index, d, hjustifies⟩ := hsound_end.justified ht hsystem hresolved
  have hcandidate : (index, d) ∈ s.candidates weights := by
    rw [← StorySymbol.candidates_eq_of_evidence hst.evidence_eq]
    exact StorySymbol.mem_candidates.2 ⟨hjustifies.getElem?_eq, hjustifies.candidate⟩
  have hoffers : E.table.OffersAll d := ⟨hjustifies.not_partial, fun p hp ref hsource =>
    exists_offers_of_gives (List.forall₂_map_right_iff.2 hjustifies.backed) hp hsource⟩
  obtain ⟨_, _, _, hfound, -⟩ := hwalked.finds hstart hend hcandidate hoffers fun target href =>
    h.lender hsound_end ⟨t', d, ht, hjustifies.canonicalDefinition?, href⟩
  cases hfound

/-- A walk is fair to other symbols. -/
theorem Walked.isFair
    (hwalked : Walked (AttemptForetold start E weights (key :: chain)) weights chain key σ s
      found failures σ')
    (hstart : start.Evolves σ.table) (hend : Stays [] σ' E)
    (hchain : ∀ other ∈ chain, Relation.ReflTransGen E.table.RefersTo other key)
    (hfair : IsFair start E weights σ) : IsFair start E weights σ' := by
  refine (hwalked.accords hstart hend).keep (P := IsFair start E weights) ?_ (hfair.of_table rfl)
  rintro other σ₁ verdict σ₂ ⟨-, -, hrefers, haccords⟩
  refine haccords.fair fun member hmem => ?_
  rcases List.mem_cons.1 hmem with rfl | hmem
  · exact .single hrefers
  · exact (hchain member hmem).tail hrefers

/-- **A symbol passes over nothing that is complete in the end** and does not lead back to it. -/
theorem Walked.leadsTo_of_passesOver {index : Nat} {c d : SymbolDefinition}
    {types : List (ValueType × Option ParameterRef)}
    (hwalked : Walked (AttemptForetold start E weights (key :: chain)) weights chain key σ s
      (some (index, c, types)) failures σ')
    (hstart : start.Evolves σ.table) (hend : Stays [] σ' E)
    (hchain : ∀ other ∈ chain, Relation.ReflTransGen E.table.RefersTo other key)
    (hpasses : (s.adopt index c types).PassesOver weights d) (hoffers : E.table.OffersAll d) :
    E.table.LeadsTo d key := by
  by_contra hleads
  obtain ⟨place, c', hcandidate, hc', hprecedes⟩ := hpasses
  have hc : s.definitions[index]? = some c :=
    (StorySymbol.mem_candidates.1 hwalked.searches.found_eq.1).1
  obtain rfl : c = c' := Option.some.inj (hc.symm.trans hc')
  have hwithout (target) (href : target ∈ d.references) : DoesWithout E (key :: chain) target := by
    obtain ⟨p, hp, ref, hsource, rfl⟩ := SymbolDefinition.mem_references.1 href
    obtain ⟨type, t, -, ht, hsettled, hresolved, -⟩ := hoffers.2 p hp ref hsource
    refine ⟨⟨t, ht, hsettled, hresolved⟩, fun member hmem hbehind => ?_⟩
    -- Whoever of the chain is behind the definition leads on to the symbol.
    refine hleads ⟨ref.symbol, href, (reaches_of_lends hbehind).trans ?_⟩
    rcases List.mem_cons.1 hmem with rfl | hmem
    · exact .refl
    · exact hchain member hmem
  obtain ⟨_, _, _, hfound, hranks⟩ := hwalked.finds hstart hend hcandidate hoffers hwithout
  cases hfound
  exact absurd hranks (by simp [hprecedes.not_ranksBefore])

/-- A walk that finds nothing accords with the end, if it leaves its symbol without definition. -/
theorem Walked.foretold {f : StorySymbol → StorySymbol}
    (hwalked : Walked (AttemptForetold start E weights (key :: chain)) weights chain key σ s
      none failures σ')
    (hsound : start.Sound) (hsound_end : E.table.Sound) (hkey : ∀ s, (f s).key = s.key)
    (hf : s.Evolves (f s)) (hcanonical : (f s).canonical = none) (verdict : Resolution) :
    Foretold start E weights chain key σ verdict (σ'.modify key f) := by
  intro hstart hend
  have hend' : Stays [] σ' E :=
    (Stays.modify (.refl [] σ') hkey List.not_mem_nil hwalked.get?_end hf).trans hend
  refine ⟨fun h => (hwalked.not_doesWithout hsound hsound_end hstart hend' h).elim,
    fun hchain hfair => ?_⟩
  exact (hwalked.isFair hstart hend' hchain hfair).modify hkey hwalked.get?_end fun d hpasses =>
    (StorySymbol.not_passesOver hcanonical hpasses).elim

end Walk

/-- **Every attempt accords with the end.** -/
theorem foretold_resolve (hsound : start.Sound) (hsound_end : E.table.Sound)
    (hremembers : RemembersFlagged E) (weights : Weights) (room : Nat) (key : SymbolKey) (σ : Sweep)
    (hroom : σ.table.keys.length ≤ room) :
    AttemptForetold start E weights [] key σ ((resolve weights room [] key).run σ).1
      ((resolve weights room [] key).run σ).2 := by
  refine attempt_induction weights (motive := Foretold start E weights)
    ?known ?adopted ?pending ?blocked ?undefined ?dead room key σ hroom
  case known =>
    -- Nothing changes, so all there is to show is that a symbol that does without the chain is
    -- neither absent, nor remembered, nor on the chain.
    intro chain key σ verdict hwalk hstart hend
    refine ⟨fun h => ?_, fun _ hfair => hfair⟩
    obtain ⟨t, ht, hsettled, hresolved⟩ := h.resolved
    obtain ⟨hnone, -⟩ | ⟨s, hget, hcases⟩ := toWalk_eq_error hwalk
    · exact absurd (ht.symm.trans (hend.evolves.get?_eq_none_iff.2 hnone)) nofun
    · obtain ⟨hs_settled, rfl⟩ | ⟨-, hmem, -⟩ | ⟨-, -, hmem, -⟩ := hcases
      · have hs := hend.evolves.get?_of_unflagged hget hs_settled
        obtain rfl : s = t := Option.some.inj (hs.symm.trans ht)
        exact hresolved
      · obtain ⟨t', ht', hflag⟩ := hremembers key (hend.remembers hmem)
        obtain rfl : t' = t := Option.some.inj (ht'.symm.trans ht)
        exact absurd hflag (by simp [hsettled])
      · exact absurd .refl (h.apart key hmem)
  case adopted =>
    intro chain key σ s σ' index d types failures hwalked hstart hend
    have hend' : Stays [] σ' E :=
      (Stays.modify (f := fun s => s.adopt index d types) (.refl [] σ') (fun _ => rfl)
        List.not_mem_nil hwalked.get?_end hwalked.evolves_adopt).trans hend
    refine ⟨fun _ => rfl, fun hchain hfair => ?_⟩
    exact (hwalked.isFair hstart hend' hchain hfair).modify (fun _ => rfl) hwalked.get?_end
      fun d hpasses hoffers => hwalked.leadsTo_of_passesOver hstart hend' hchain hpasses hoffers
  case pending =>
    intro chain key σ s σ' failures hwalked _ hstart hend
    have hmodify : Stays [] (σ'.modify key .fallBack) E :=
      (Stays.remember failures (.refl [] _) List.not_mem_nil).trans hend
    have haccords := hwalked.foretold hsound hsound_end (f := .fallBack) (fun _ => rfl)
      (.fellBack hwalked.flagged) rfl .pending hstart hmodify
    exact ⟨haccords.resolves, fun hchain hfair =>
      (haccords.fair hchain hfair).of_table (Sweep.table_remember _ _ _)⟩
  case blocked =>
    intro chain key σ s σ' failures hwalked _ _ _ hstart hend
    exact ⟨fun h => (hwalked.not_doesWithout hsound hsound_end hstart hend h).elim,
      hwalked.isFair hstart hend⟩
  case undefined =>
    intro chain key σ s hwalk hnone _
    have hsearch : Searches (AttemptForetold start E weights (key :: chain)) (s.candidates weights)
        {} (σ.visit chain) none {} (σ.visit chain) := by
      rw [hnone]
      exact .exhausted {} (σ.visit chain)
    have hwalked := Walked.of_searches hwalk (fun _ _ _ _ h => h.1.toStays) hsearch
    exact hwalked.foretold hsound hsound_end (f := .waitForDefinition) (fun _ => rfl)
      (.settled hwalked.flagged rfl rfl fun _ h => h.waitForDefinition) rfl .pending
  case dead =>
    intro chain key σ s σ' failures hwalked _ _ _
    exact hwalked.foretold hsound hsound_end (f := .markDead) (fun _ => rfl)
      (.settled hwalked.flagged rfl rfl fun _ h => h.markDead) rfl .dead

end Resolving

/-! ## Sweeps and updates

Within one sweep nothing complete is passed over. In the second sweep more may be complete than in
the first, but what the first has resolved is not asked again. This is where the condition of the
theorem comes from. -/

namespace SymbolTable

variable {table : SymbolTable} {key : SymbolKey} {s s₀ : StorySymbol} {d : SymbolDefinition}
  {weights : Weights}

/-- A sweep has been fair, seen from its end. The end is behind every attempt of the sweep, so the
induction is on what holds of all sweeps that stay within the frame up to the end. -/
theorem Sound.isFair_sweep (h : table.Sound) (weights : Weights) :
    Resolving.IsFair table (table.sweep weights) weights (table.sweep weights) := by
  have hswept := (sweep_induction table weights
    (P := fun σ => table.Evolves σ.table ∧ (Resolving.Stays [] σ (table.sweep weights) →
      Resolving.IsFair table (table.sweep weights) weights σ))
    (Q := fun _ _ => True) ⟨.refl table, fun _ => ?start⟩ fun key σ hroom hP => ?attempt).1
  case start =>
    -- What is flagged has adopted nothing.
    intro key s₀ s d hs₀ hflag hs hpasses
    obtain rfl : s₀ = s := Option.some.inj (hs₀.symm.trans hs)
    have hsystem := h.not_declared hs₀ hflag
    cases hcanonical : s₀.canonical with
    | none => exact (StorySymbol.not_passesOver hcanonical hpasses).elim
    | some index =>
      have hsettled := (h.adopted hs₀ hsystem hcanonical).2.1
      exact absurd hflag (by simp [hsettled])
  case attempt =>
    obtain ⟨hattempt, hforetold⟩ := Resolving.foretold_resolve h (h.sweep weights)
      (Resolving.remembersFlagged_sweep table weights) weights table.size key σ hroom
    refine ⟨⟨hP.1.trans hattempt.evolves, fun hend => ?_⟩, trivial, fun _ _ => trivial⟩
    exact (hforetold hP.1 hend).fair nofun (hP.2 (hattempt.toStays.trans hend))
  exact hswept.2 (.refl [] _)

/-- **A sweep is fair.** Of what the symbols that it resolves have passed over, nothing is complete
when it is done, save what leads back. -/
theorem Sound.incomplete_of_passesOver_sweep (h : table.Sound) (hget₀ : table.get? key = some s₀)
    (hflag : s₀.needsUpdate = true) (hget : (table.sweep weights).table.get? key = some s)
    (hpasses : s.PassesOver weights d) (hleads : ¬ table.LeadsTo d key) :
    ¬ (table.sweep weights).table.IsComplete d := by
  rw [(h.sweep weights).isComplete_iff]
  intro hoffers
  exact hleads ((table.evolves_sweep weights).leadsTo_iff.1
    (h.isFair_sweep weights key s₀ s d hget₀ hflag hget hpasses hoffers))

theorem isComplete_clearFlags : table.clearFlags.IsComplete d ↔ table.IsComplete d := by
  refine and_congr_right fun _ => forall₂_congr fun p _ => forall₂_congr fun ref _ => ?_
  rw [get?_clearFlags]
  constructor
  · rintro ⟨t, q, ht, hresolved, hq⟩
    obtain ⟨s, hs, rfl⟩ := Option.map_eq_some_iff.1 ht
    exact ⟨s, q, hs, hresolved, hq⟩
  · rintro ⟨s, q, hs, hresolved, hq⟩
    exact ⟨{ s with needsUpdate := false }, q, by rw [hs]; rfl, hresolved, hq⟩

/-- What the first sweep resolves is looked up after the update as after that sweep. -/
theorem Sound.get?_update_of_sweep (h : table.Sound)
    (hget : (table.sweep weights).table.get? key = some s) (hresolved : s.resolution = .resolved) :
    (table.update weights).1.get? key = some s := by
  have hsettled := (h.sweep weights).settled_of_resolved hget hresolved
  rw [get?_update, (evolves_sweep _ weights).get?_of_unflagged hget hsettled, Option.map_some,
    ← hsettled]

/-- An update has passed over nothing that is complete in the end, save what leads back, if the
second sweep has completed nothing that was passed over in the first. -/
theorem Sound.firstCompleteWins_update_iff (h : table.Sound)
    (hflagged : ∀ s ∈ table.symbols, s.isSystem = false → s.needsUpdate = true) (weights : Weights) :
    (table.update weights).1.FirstCompleteWins weights
      ↔ ∀ key s d, (table.sweep weights).table.get? key = some s → s.isSystem = false →
          s.resolution = .resolved → s.PassesOver weights d → ¬ table.LeadsTo d key →
          (table.update weights).1.IsComplete d → (table.sweep weights).table.IsComplete d := by
  have hfirst := table.evolves_sweep weights
  constructor
  · intro hwins key s d hget hsystem hresolved hpasses hleads hcomplete
    have hleads' := mt (table.evolves_update weights).leadsTo_iff.1 hleads
    exact absurd hcomplete
      (hwins key s d (h.get?_update_of_sweep hget hresolved) hsystem hresolved hpasses hleads')
  · intro hlate key t d ht hsystem hresolved hpasses hleads hcomplete
    have hleads := mt (table.evolves_update weights).leadsTo_iff.2 hleads
    rw [get?_update] at ht
    obtain ⟨s, hs, rfl⟩ := Option.map_eq_some_iff.1 ht
    obtain ⟨s₁, hs₁, hs₁s⟩ := (evolves_sweep _ weights).exists_before hs
    cases hflag : s₁.needsUpdate with
    | true =>
      exact (h.sweep weights).incomplete_of_passesOver_sweep hs₁ hflag hs hpasses
        (mt hfirst.leadsTo_iff.1 hleads) (isComplete_clearFlags.1 hcomplete)
    | false =>
      -- The first sweep has resolved the symbol.
      obtain rfl := hs₁s.eq_of_unflagged hflag
      obtain ⟨s₀, hs₀, hs₀s⟩ := hfirst.exists_before hs₁
      have hsystem₀ : s₀.isSystem = false :=
        (StorySymbol.isSystem_eq_of_evidence hs₀s.evidence_eq).symm.trans hsystem
      exact h.incomplete_of_passesOver_sweep hs₀
        (hflagged s₀ (mem_symbols_of_get? hs₀) hsystem₀) hs₁ hpasses hleads
        (hlate key s d hs₁ hsystem hresolved hpasses hleads hcomplete)

/-- **The first complete definition wins, unless the second sweep is late.** Take any table that
steps lead to, with all symbols flagged that nobody declared. After an update no resolved symbol has
passed over a definition that is complete in the end and does not lead back to the symbol, just if
none of those that symbols passed over in the first sweep was completed by the second. What is passed
over in the second sweep itself is never an exception. -/
theorem first_complete_wins_iff (header : String) (types : TypeRegistry)
    (declarations : List Declaration) (steps : List TableStep) (weights : Weights) :
    let table := steps.foldl TableStep.apply (declareAll {} header types declarations)
    (∀ s ∈ table.symbols, s.isSystem = false → s.needsUpdate = true) →
    ((table.update weights).1.FirstCompleteWins weights
      ↔ ∀ key s d, (table.sweep weights).table.get? key = some s → s.isSystem = false →
          s.resolution = .resolved → s.PassesOver weights d → ¬ table.LeadsTo d key →
          (table.update weights).1.IsComplete d → (table.sweep weights).table.IsComplete d) := by
  intro table hflagged
  have h : table.Sound := TableStep.sound_run (sound_declareAll header types declarations) steps
  exact h.firstCompleteWins_update_iff hflagged weights

/-- Where the first sweep has left nothing flagged, the second does nothing. -/
theorem update_of_flagged_eq_nil (h : (table.sweep weights).table.flagged = []) :
    (table.update weights).1 = (table.sweep weights).table.clearFlags := by
  have hsecond : ((table.sweep weights).table.sweep weights).table = (table.sweep weights).table := by
    rw [sweep, h]
    rfl
  show ((table.sweep weights).table.sweep weights).table.clearFlags = _
  rw [hsecond]

/-- A database that copies one that nothing fills, before a section fills it. -/
def deadEnd : SymbolTable :=
  [TableStep.addGoal "G" {} (Sketch.goal []
    [Sketch.rule (Sketch.call 1 "DB_None" [.name "_v"]) [] [Sketch.call 2 "DB_X" [.name "_v"]]]
    [Sketch.call 3 "DB_X" [.integer 1]])].foldl TableStep.apply (declareAll {} "header" {} [])

/-- The copy is passed over, and for good. -/
theorem first_complete_wins_past_dead_end :
    (deadEnd.update []).1.FirstCompleteWins []
      ∧ ((deadEnd.update []).1.get? ⟨"DB_X", 1⟩).map StorySymbol.outcome
        = some (.resolved, [.integer], some ("G", ⟨3, 3⟩)) := by
  have hdone : (deadEnd.sweep []).table.flagged = [] := by cbv
  refine ⟨(first_complete_wins_iff "header" {} [] _ [] (by decide +kernel)).2 ?_, by cbv⟩
  intro key s d _ _ _ _ _ hcomplete
  have hupdate := update_of_flagged_eq_nil hdone
  exact isComplete_clearFlags.1 (hupdate ▸ hcomplete)

/-- Goals that say something about symbols have each a weight of their own. -/
def HasOwnWeights (table : SymbolTable) (weights : Weights) : Prop :=
  ∀ s ∈ table.symbols, ∀ t ∈ table.symbols, ∀ c ∈ s.definitions, ∀ d ∈ t.definitions,
    weights.of c.goal = weights.of d.goal → c.goal = d.goal

theorem not_leadsTo (hd : key ∉ d.references)
    (hrefers : ∀ s ∈ table.symbols, ∀ c ∈ s.definitions, key ∉ c.references) :
    ¬ table.LeadsTo d key := by
  rintro ⟨first, href, hpath⟩
  cases hpath with
  | refl => exact hd href
  | tail _ hlast =>
    obtain ⟨s, hget, c, hc, href⟩ := hlast
    exact hrefers s (mem_symbols_of_get? hget) c hc href

/-- A circle of three databases, and `DB_S` beside it, which copies one of them before a section
fills it. `DB_X` is also written with a variable without type. -/
def lateCircle : SymbolTable :=
  [TableStep.addGoal "G" {} (Sketch.goal []
    [Sketch.rule (Sketch.call 1 "DB_Y" [.name "_a"]) [] [Sketch.call 2 "DB_X" [.name "_u"]],
      Sketch.rule (Sketch.call 3 "DB_Z" [.name "_v"]) []
        [Sketch.call 4 "DB_Y" [.name "_v"], Sketch.call 5 "DB_S" [.name "_v"]],
      Sketch.rule (Sketch.call 6 "DB_Y" [.name "_v"]) [] [Sketch.call 7 "DB_X" [.name "_v"]],
      Sketch.rule (Sketch.call 8 "DB_X" [.name "_v"]) [] [Sketch.call 9 "DB_Z" [.name "_v"]]]
    [Sketch.call 10 "DB_Y" [.integer 1], Sketch.call 11 "DB_S" [.string "s"]])].foldl
      TableStep.apply (declareAll {} "header" {} [])

/-- The copy of `DB_Z` is complete in the end, and `DB_S` has passed it over. -/
theorem not_firstCompleteWins_lateCircle :
    ¬ (lateCircle.update [("G", 0)]).1.FirstCompleteWins [("G", 0)] := by
  intro hwins
  have hlater : ((lateCircle.update [("G", 0)]).1.get? ⟨"DB_S", 1⟩).map (fun s => (s.isSystem,
      s.resolution, s.definitions[0]?, s.canonicalDefinition?.map fun c => (c.goal, c.span.start)))
        = some (false, .resolved, some (copied 5 "DB_Z"), some ("G", 11)) := by cbv
  have hearlier : ((lateCircle.update [("G", 0)]).1.get? ⟨"DB_Z", 1⟩).map (fun s => (s.resolution,
      (s.parameters[0]?).map (·.type))) = some (.resolved, some .integer) := by cbv
  obtain ⟨s, hs, hlater⟩ := Option.map_eq_some_iff.1 hlater
  simp only [Prod.mk.injEq] at hlater
  obtain ⟨hsystem, hresolved, hd, hcanonical⟩ := hlater
  obtain ⟨c, hc, hplace⟩ := Option.map_eq_some_iff.1 hcanonical
  simp only [Prod.mk.injEq] at hplace
  -- The first definition comes before the adopted one, no way leads back from it, and its only
  -- reference is resolved in the end.
  refine hwins ⟨"DB_S", 1⟩ s (copied 5 "DB_Z") hs hsystem hresolved ?passes ?leads ?complete
  case passes =>
    refine ⟨0, c, StorySymbol.mem_candidates.2 ⟨hd, fun _ => rfl⟩, hc, Or.inr ⟨?_, ?_⟩⟩
    · rw [hplace.1]
      rfl
    · rw [hplace.2]
      decide
  case leads =>
    refine mt (lateCircle.evolves_update [("G", 0)]).leadsTo_iff.1 (not_leadsTo (by decide) ?_)
    decide +kernel
  case complete =>
    obtain ⟨t, ht, hearlier⟩ := Option.map_eq_some_iff.1 hearlier
    simp only [Prod.mk.injEq] at hearlier
    obtain ⟨q, hq, htype⟩ := Option.map_eq_some_iff.1 hearlier.2
    refine ⟨rfl, fun p hp ref hsource => ⟨t, q, ?_⟩⟩
    obtain rfl := List.mem_singleton.1 hp
    cases hsource
    exact ⟨ht, hearlier.1, hq, by rw [htype]; rfl⟩

/-- **A later definition can win.** In the first sweep `DB_X` is pending below the chain that starts
from `DB_Y`, so it is not remembered. But `DB_Z`, which copies it, is, and so `DB_S` passes over the
copy of `DB_Z`. The second sweep resolves `DB_Z` and does not come back to `DB_S`. -/
theorem first_complete_can_lose :
    ¬ ∀ (header : String) (types : TypeRegistry) (declarations : List Declaration)
      (steps : List TableStep) (weights : Weights),
      let table := steps.foldl TableStep.apply (declareAll {} header types declarations)
      (∀ s ∈ table.symbols, s.isSystem = false → s.needsUpdate = true) →
      table.HasOwnWeights weights → (table.update weights).1.FirstCompleteWins weights := by
  intro h
  have hflagged : ∀ s ∈ lateCircle.symbols, s.isSystem = false → s.needsUpdate = true := by
    decide +kernel
  have hweights : lateCircle.HasOwnWeights [("G", 0)] := by
    unfold HasOwnWeights
    decide +kernel
  exact not_firstCompleteWins_lateCircle (h "header" {} [] _ [("G", 0)] hflagged hweights)

end SymbolTable

end StoryCheck
