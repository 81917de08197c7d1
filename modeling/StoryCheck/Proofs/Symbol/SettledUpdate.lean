import StoryCheck.Proofs.Symbol.SettledSearch

/-!
# Updates follow every settling

Where a settling has a say, an update comes to what it judges, whatever the order in which the
symbols stand in the table and whatever else there is in it.

* **`Orderly`** — flags and verdicts are in order, as headers and goals leave them.
* **`follows_resolve`** — every attempt keeps to the settling. A symbol about which it has no say is
  only ever walked below symbols about which it has none either.
* **`shows_update`** — an update brings every symbol to its judgement.
-/

namespace StoryCheck

namespace StorySymbol

variable {s : StorySymbol}

theorem shows_adopt {index : Nat} {d : SymbolDefinition}
    {types : List (ValueType × Option ParameterRef)} (hd : s.definitions[index]? = some d) :
    (s.adopt index d types).Shows (.adopts d types) :=
  ⟨index, hd, rfl⟩

theorem shows_markDead : s.markDead.Shows .dead := by
  refine ⟨by simp [markDead, resolution], ?_⟩
  show { s.fallBack.fallBack with isDead := true, needsUpdate := false } = s.markDead
  rw [fallBack_fallBack]
  rfl

theorem shows_waitForDefinition (hsystem : s.isSystem = false) (hdead : s.isDead = false) :
    s.waitForDefinition.Shows .pending := by
  refine ⟨by simp [waitForDefinition, fallBack, resolution, hsystem, hdead], ?_⟩
  show { s.fallBack.fallBack with needsUpdate := false } = s.waitForDefinition
  rw [fallBack_fallBack]
  rfl

end StorySymbol

namespace SymbolTable

variable {table : SymbolTable} {key p : SymbolKey} {s : StorySymbol} {weights : Weights}
  {S : table.Settling weights} {σ σ' : Sweep}

/-- Flags and verdicts are in order: declared symbols are settled, flagged ones have no verdict. -/
structure Orderly (table : SymbolTable) : Prop where
  declared : ∀ {key s}, table.get? key = some s → s.isSystem = true →
    s.isDead = false ∧ s.needsUpdate = false
  flagged : ∀ {key s}, table.get? key = some s → s.needsUpdate = true →
    s.isDead = false ∧ s.canonical = none

/-- A flagged symbol has no verdict yet. -/
theorem Orderly.resolution_eq (h : table.Orderly) (hget : table.get? key = some s)
    (hflag : s.needsUpdate = true) : s.isSystem = false ∧ s.resolution = .pending := by
  obtain ⟨hdead, hcanonical⟩ := h.flagged hget hflag
  have hsystem : s.isSystem = false := by
    by_contra hsystem
    have := (h.declared hget (by simpa using hsystem)).2
    simp [hflag] at this
  exact ⟨hsystem, by simp [StorySymbol.resolution, hdead, hcanonical, hsystem]⟩

theorem Orderly.evolves {after : SymbolTable} (h : table.Orderly) (hevolves : table.Evolves after) :
    ∀ {key s}, after.get? key = some s → s.needsUpdate = true →
      s.isSystem = false ∧ s.isDead = false ∧ s.resolution = .pending := by
  intro key t ht hflag
  obtain ⟨s, hs, hst⟩ := hevolves.exists_before ht
  cases hst with
  | same =>
    obtain ⟨hsystem, hresolution⟩ := h.resolution_eq hs hflag
    exact ⟨hsystem, (h.flagged hs hflag).1, hresolution⟩
  | fellBack hflag =>
    obtain ⟨hsystem, hresolution⟩ := h.resolution_eq hs hflag
    have hdead := (h.flagged hs hflag).1
    exact ⟨hsystem, hdead, by simp [StorySymbol.resolution, StorySymbol.fallBack, hsystem, hdead]⟩
  | settled _ hsettled => exact absurd hflag (by simp [hsettled])

/-! ## Writing to a walked symbol

At the end of a walk one symbol is written to. The sweep goes on to follow the settling if that
symbol now shows its judgement, or waits where it has to. -/

theorem Settling.Follows.modify {f : StorySymbol → StorySymbol} (h : S.Follows σ)
    (hkey : ∀ s, (f s).key = s.key) (hget : σ.table.get? p = some s) (hpending : p ∉ σ.pending)
    (hf : s.Evolves (f s))
    (hshows : S.covers p → (f s).needsUpdate = false → (f s).Shows (S.view p)) :
    S.Follows (σ.modify p f) where
  evolves := by
    refine h.evolves.trans (.modify hkey fun t ht => ?_)
    rw [hget, Option.some.injEq] at ht
    exact ht ▸ hf
  settled {key t} hcovers ht hsettled := by
    rw [Sweep.table_modify, get?_modify hkey] at ht
    split at ht
    · next heq =>
      subst heq
      rw [hget, Option.map_some, Option.some.injEq] at ht
      subst ht
      exact hshows hcovers hsettled
    · exact h.settled hcovers ht hsettled
  remembered {key t} hcovers hmem ht := by
    have hne : key ≠ p := fun heq => hpending (heq ▸ hmem)
    rw [Sweep.table_modify, get?_modify_of_ne hkey hne] at ht
    exact h.remembered hcovers hmem ht

theorem Settling.Follows.remember {failures : Failures} (h : S.Follows σ)
    (hget : σ.table.get? p = some s)
    (hview : S.covers p → S.view p = .pending ∧ s.fallBack = s) :
    S.Follows (σ.remember p failures) where
  evolves := by
    rw [Sweep.table_remember]
    exact h.evolves
  settled := by
    rw [Sweep.table_remember]
    exact h.settled
  remembered {key t} hcovers hmem ht := by
    rw [Sweep.table_remember] at ht
    rcases Sweep.mem_pending_remember.1 hmem with hmem | ⟨rfl, -⟩
    · exact h.remembered hcovers hmem ht
    · rw [hget, Option.some.injEq] at ht
      exact ht ▸ hview hcovers

end SymbolTable

/-! ## Walks

A walk sees a symbol on the chain as blocked and not as what it is judged to be. It may then report
less than the judgement says, and what it has missed is the excuse that it leaves with its caller. -/

namespace SymbolTable

variable {table : SymbolTable} {weights : Weights} {S : table.Settling weights}
  {p : SymbolKey} {s : StorySymbol} {σ : Sweep}

/-- A flagged symbol as the table has it. -/
theorem Settling.Follows.exists_before (hfollows : S.Follows σ) (horderly : table.Orderly)
    (hget : σ.table.get? p = some s) (hflag : s.needsUpdate = true) :
    ∃ s₀, table.get? p = some s₀ ∧ s₀.isSystem = false ∧ s₀.isDatabase = s.isDatabase
      ∧ s₀.ranked weights = s.ranked weights := by
  obtain ⟨s₀, hs₀, hevolves⟩ := hfollows.evolves.exists_before hget
  have hevidence := hevolves.evidence_eq
  refine ⟨s₀, hs₀, ?_, (StorySymbol.isDatabase_eq_of_evidence hevidence).symm, ?_⟩
  · rw [← StorySymbol.isSystem_eq_of_evidence hevidence]
    exact (horderly.evolves hfollows.evolves hget hflag).1
  · rw [StorySymbol.ranked, StorySymbol.ranked, StorySymbol.candidates_eq_of_evidence hevidence]

/-- What the settling says about a flagged symbol. -/
theorem Settling.Follows.judged (hfollows : S.Follows σ) (horderly : table.Orderly)
    (hget : σ.table.get? p = some s) (hflag : s.needsUpdate = true) (hcovers : S.covers p) :
    S.view p = (S.view.seenBy p).judge s.isDatabase (s.ranked weights)
      ∧ (S.view p = .pending →
        (S.view.seenBelow S.rank p).judge s.isDatabase (s.ranked weights) = .pending) := by
  obtain ⟨s₀, hs₀, hsystem, hdatabase, hranked⟩ := hfollows.exists_before horderly hget hflag
  rw [← hdatabase, ← hranked]
  exact ⟨S.judged hcovers hs₀ hsystem, S.grounded hcovers hs₀ hsystem⟩

end SymbolTable

namespace Resolving

open SymbolTable

variable {table : SymbolTable} {weights : Weights} {S : table.Settling weights}
  {chain : List SymbolKey} {key p : SymbolKey} {s : StorySymbol} {σ σ' : Sweep}
  {found : Option Adoption} {failures : Failures}

theorem covers_of_transGen (hcovers : S.covers key)
    (hneeds : Relation.TransGen (table.Needs weights S.view) key p) : S.covers p := by
  induction hneeds with
  | single hneeds => exact S.closed hcovers hneeds
  | tail _ hneeds ih => exact S.closed ih hneeds

/-- An attempt inside of a walk, with its frame. -/
def Kept (S : table.Settling weights) (chain : List SymbolKey) (key : SymbolKey) (σ : Sweep)
    (verdict : Resolution) (σ' : Sweep) : Prop :=
  Attempt chain key σ verdict σ' ∧ Keeps S chain key σ verdict σ'

/-- A walk agrees with the settling up to where its verdict is decided. -/
theorem Walked.follows
    (h : Walked (Kept S (p :: chain)) weights chain p σ s found failures σ') (horderly : table.Orderly)
    (hfollows : S.Follows σ) (hreaches : S.Reaches chain p) (hwalked : IsWalked chain σ) :
    S.Follows σ'
      ∧ (S.covers p → Searched S chain p (s.ranked weights) {} found failures) := by
  have hfollows' : S.Follows (σ.visit chain) :=
    ⟨hfollows.evolves, hfollows.settled, hfollows.remembered⟩
  have hwalked' : IsWalked (p :: chain) (σ.visit chain) := by
    intro other hmem
    rcases List.mem_cons.1 hmem with rfl | hmem
    · exact ⟨s, h.get?_eq, h.flagged, h.not_pending⟩
    · exact hwalked other hmem
  by_cases hcovers : S.covers p
  · obtain ⟨s₀, hs₀, hsystem, -, hranked⟩ := hfollows.exists_before horderly h.get?_eq h.flagged
    have := h.searches.follows (S := S) (fun _ _ _ _ => id) hcovers hreaches
      (fun d hd other hother => ⟨s₀, hs₀, hsystem, d, hranked ▸ hd, hother⟩) hfollows' hwalked'
    exact ⟨this.1, fun _ => this.2⟩
  · -- No symbol of the chain is covered either, so there is nothing to reach.
    refine ⟨?_, fun h => absurd h hcovers⟩
    refine (h.searches.keep (P := fun σ => S.Follows σ ∧ IsWalked (p :: chain) σ)
      (fun r σ verdict σ₁ hattempt hP => ?_) ⟨hfollows', hwalked'⟩).1
    refine ⟨(hattempt.2 hP.1 (fun other hmem hother => ?_) hP.2).1,
      hP.2.stays hattempt.1.toStays⟩
    rcases List.mem_cons.1 hmem with rfl | hmem
    · exact absurd hother hcovers
    · exact absurd (covers_of_transGen hother (hreaches other hmem hother)) hcovers

/-- An attempt that does not walk its symbol keeps to the settling. -/
theorem keeps_of_known {verdict : Resolution} (hwalk : toWalk σ chain key = .error verdict) :
    Keeps S chain key σ verdict σ := by
  intro hfollows _ _
  refine ⟨hfollows, fun hcovers hfresh => ?_⟩
  -- A verdict known without a walk is that of an absent symbol, of a settled one, of one remembered
  -- as pending, or of a key on the chain, which is ruled out.
  unfold Settling.Answers
  obtain ⟨hnone, rfl⟩ | ⟨t, ht, hcases⟩ := toWalk_eq_error hwalk
  · rw [S.absent hcovers (hfollows.evolves.get?_eq_none_iff.1 hnone)]
    refine ⟨Or.inl rfl, fun t ht => ?_⟩
    rw [hnone] at ht
    cases ht
  obtain ⟨hsettled, rfl⟩ | ⟨hflag, hpending, rfl⟩ | ⟨-, -, hmem, -⟩ := hcases
  · refine ⟨?_, fun t' ht' hflag => ?_⟩
    · have hshows := hfollows.settled hcovers ht hsettled
      cases hview : S.view key with
      | declared types =>
        rw [hview] at hshows
        exact hshows.1
      | adopts d types =>
        rw [hview] at hshows
        obtain ⟨index, -, hadopt⟩ := hshows
        rw [← hadopt]
        exact StorySymbol.resolution_adopt t index d types
      | pending | dead =>
        rw [hview] at hshows
        exact Or.inl hshows.1
    · rw [ht, Option.some.injEq] at ht'
      exact absurd hflag (by simp [← ht', hsettled])
  · obtain ⟨hview, hfallBack⟩ := hfollows.remembered hcovers hpending ht
    rw [hview]
    refine ⟨Or.inl rfl, fun t' ht' _ => Or.inr ⟨rfl, ?_⟩⟩
    rw [ht, Option.some.injEq] at ht'
    exact ht' ▸ hfallBack
  · exact absurd hmem hfresh

/-- A walk without complete candidate that leaves something to wait for is one of a symbol that
waits. -/
theorem Walked.view_eq_pending
    (h : Walked (Kept S (p :: chain)) weights chain p σ s none failures σ') (horderly : table.Orderly)
    (hfollows : S.Follows σ) (hcovers : S.covers p)
    (hsearched : Searched S chain p (s.ranked weights) {} none failures)
    (hpending : failures.pending = true) : S.view p = .pending := by
  rw [(hfollows.judged horderly h.get?_eq h.flagged hcovers).1, View.judge_eq_pending]
  refine ⟨hsearched.found_eq.symm, Or.inl ?_⟩
  rcases hsearched.awaited hpending with hstart | hawaits
  · cases hstart
  · exact hawaits

/-- A walk that finds nothing to wait for is one of a dead symbol, or there is an excuse. -/
theorem Walked.view_of_not_pending
    (h : Walked (Kept S (p :: chain)) weights chain p σ s none failures σ') (horderly : table.Orderly)
    (hfollows : S.Follows σ) (hcovers : S.covers p)
    (hsearched : Searched S chain p (s.ranked weights) {} none failures)
    (hpending : failures.pending = false) (hcandidates : s.ranked weights = [] → s.isDatabase = true) :
    S.view p = .dead
      ∨ (S.view p = .pending ∧ failures.blocked = true ∧ S.Excuse chain p) := by
  obtain ⟨hjudge, hgrounded⟩ := hfollows.judged horderly h.get?_eq h.flagged hcovers
  have hnone : (S.view.seenBy p).firstComplete (s.ranked weights) = none :=
    hsearched.found_eq.symm
  rcases View.judge_of_none s.isDatabase hnone with hwaits | hdead
  · have hview := hjudge.trans hwaits
    refine Or.inr ⟨hview, ?_⟩
    obtain ⟨-, hawaits | ⟨hempty, hdatabase⟩⟩ := View.judge_eq_pending.1 (hgrounded hview)
    · rcases hsearched.excused rfl hawaits with hfound | hexcuse
      · exact absurd hfound (by simp [hpending])
      · exact hexcuse
    · exact absurd (hcandidates hempty) (by simp [hdatabase])
  · exact Or.inl (hjudge.trans hdead)

/-- **Every attempt keeps to the settling.** -/
theorem keeps_resolve (horderly : table.Orderly) (S : table.Settling weights) (room : Nat)
    (key : SymbolKey) (σ : Sweep) (hroom : σ.table.keys.length ≤ room) :
    Kept S [] key σ ((resolve weights room [] key).run σ).1
      ((resolve weights room [] key).run σ).2 := by
  refine attempt_induction weights (motive := Keeps S) keeps_of_known ?adopted ?pending ?blocked
    ?undefined ?dead room key σ hroom
  case adopted =>
    intro chain key σ s σ' index d types failures hwalked hfollows hreaches hchain
    obtain ⟨hfollows', hsearched⟩ := hwalked.follows horderly hfollows hreaches hchain
    have hview (hcovers : S.covers key) : S.view key = .adopts d types := by
      rw [(hfollows.judged horderly hwalked.get?_eq hwalked.flagged hcovers).1, View.judge_eq_adopts]
      exact (hsearched hcovers).found_eq.symm
    have hd := (StorySymbol.mem_candidates.1 hwalked.searches.found_eq.1).1
    -- The walk found what the view finds, and the symbol shows it from now on.
    refine ⟨hfollows'.modify (fun _ => rfl) hwalked.get?_end hwalked.not_pending_end
      hwalked.evolves_adopt fun hcovers _ => ?_, fun hcovers _ => ⟨?_, ?_⟩⟩
    · rw [hview hcovers]
      exact StorySymbol.shows_adopt hd
    · simp [Settling.Answers, hview hcovers]
    · intro t ht hflag
      have hget := hwalked.get?_modify (f := fun s => s.adopt index d types) fun _ => rfl
      rw [hget, Option.some.injEq] at ht
      subst ht
      cases hflag
  case pending =>
    intro chain key σ s σ' failures hwalked hpending hfollows hreaches hchain
    obtain ⟨hfollows', hsearched⟩ := hwalked.follows horderly hfollows hreaches hchain
    have hview (hcovers : S.covers key) : S.view key = .pending :=
      hwalked.view_eq_pending horderly hfollows hcovers (hsearched hcovers) hpending
    have hget := hwalked.get?_modify StorySymbol.key_fallBack
    -- The symbol stays flagged, so there is nothing for it to show yet; it is only remembered.
    have hmodify := hfollows'.modify StorySymbol.key_fallBack hwalked.get?_end
      hwalked.not_pending_end (.fellBack hwalked.flagged) fun _ hsettled => by
        rw [StorySymbol.needsUpdate_fallBack, hwalked.flagged] at hsettled
        cases hsettled
    refine ⟨hmodify.remember hget fun hcovers => ⟨hview hcovers, s.fallBack_fallBack⟩,
      fun hcovers _ => ⟨?_, ?_⟩⟩
    · simp [Settling.Answers, hview hcovers]
    · intro t ht _
      rw [Sweep.table_remember, hget, Option.some.injEq] at ht
      exact Or.inr ⟨rfl, ht ▸ s.fallBack_fallBack⟩
  case blocked =>
    intro chain key σ s σ' failures hwalked hpending hblocked hne hfollows hreaches hchain
    obtain ⟨hfollows', hsearched⟩ := hwalked.follows horderly hfollows hreaches hchain
    refine ⟨hfollows', fun hcovers _ => ⟨?_, fun _ _ _ => Or.inl rfl⟩⟩
    have hcandidates : s.ranked weights = [] → s.isDatabase = true := by
      intro hempty
      have hsearch := hwalked.searches
      rw [List.map_eq_nil_iff.1 hempty] at hsearch
      rw [(searches_nil hsearch).2.1] at hblocked
      cases hblocked
    rcases hwalked.view_of_not_pending horderly hfollows hcovers (hsearched hcovers) hpending
      hcandidates with hview | ⟨hview, -, hexcuse⟩
    · simp [Settling.Answers, hview, hne]
    · simp [Settling.Answers, hview, hexcuse]
  case undefined =>
    intro chain key σ s hwalk hempty hdatabase hfollows hreaches hchain
    obtain ⟨hget, hflag, hpending, -⟩ := toWalk_eq_ok_iff.1 hwalk
    obtain ⟨hsystem, hdead, -⟩ := horderly.evolves hfollows.evolves hget hflag
    have hfollows' : S.Follows (σ.visit chain) :=
      ⟨hfollows.evolves, hfollows.settled, hfollows.remembered⟩
    have hview (hcovers : S.covers key) : S.view key = .pending := by
      rw [(hfollows.judged horderly hget hflag hcovers).1, StorySymbol.ranked, hempty]
      exact View.judge_eq_pending.2 ⟨rfl, Or.inr ⟨rfl, hdatabase⟩⟩
    refine ⟨hfollows'.modify (fun _ => rfl) hget hpending (.settled hflag rfl rfl fun _ h => h.waitForDefinition)
      fun hcovers _ => ?_, fun hcovers _ => ⟨?_, ?_⟩⟩
    · rw [hview hcovers]
      exact StorySymbol.shows_waitForDefinition hsystem hdead
    · simp [Settling.Answers, hview hcovers]
    · intro t ht hflag'
      rw [Sweep.table_modify, get?_modify_self StorySymbol.key_waitForDefinition,
        Sweep.table_visit, hget, Option.map_some, Option.some.injEq] at ht
      subst ht
      cases hflag'
  case dead =>
    intro chain key σ s σ' failures hwalked hpending hblocked hcandidates hfollows hreaches hchain
    obtain ⟨hfollows', hsearched⟩ := hwalked.follows horderly hfollows hreaches hchain
    have hview (hcovers : S.covers key) : S.view key = .dead := by
      rcases hwalked.view_of_not_pending horderly hfollows hcovers (hsearched hcovers) hpending
        (fun hempty => hcandidates (List.map_eq_nil_iff.1 hempty)) with
        hview | ⟨-, hfailures, other, hmem, -⟩
      · exact hview
      · -- The excuse would be a symbol on the chain, which is empty here.
        rw [hblocked hfailures] at hmem
        cases hmem
    refine ⟨hfollows'.modify (fun _ => rfl) hwalked.get?_end hwalked.not_pending_end
      (.settled hwalked.flagged rfl rfl fun _ h => h.markDead) fun hcovers _ => ?_, fun hcovers _ => ⟨?_, ?_⟩⟩
    · rw [hview hcovers]
      exact StorySymbol.shows_markDead
    · simp [Settling.Answers, hview hcovers]
    · intro t ht hflag
      rw [hwalked.get?_modify StorySymbol.key_markDead, Option.some.injEq] at ht
      subst ht
      cases hflag

end Resolving

/-! ## Sweeps and updates

At the root there is no chain and so no excuse: each attempt brings its symbol to its judgement, or
leaves it waiting until flags are cleared. -/

namespace SymbolTable

variable {table : SymbolTable} {key : SymbolKey} {s t : StorySymbol} {weights : Weights}

/-- A symbol has come to its judgement, or it waits and has fallen back. -/
def Settling.IsBrought (S : table.Settling weights) (key : SymbolKey) (σ : Sweep) : Prop :=
  S.covers key → ∀ t, σ.table.get? key = some t → t.needsUpdate = true →
    S.view key = .pending ∧ t.fallBack = t

/-- At the root nothing is blocked by a chain. -/
theorem isBrought_resolve (horderly : table.Orderly) (S : table.Settling weights) (room : Nat)
    (key : SymbolKey) (σ : Sweep) (hroom : σ.table.keys.length ≤ room) (hfollows : S.Follows σ) :
    S.Follows ((Resolving.resolve weights room [] key).run σ).2
      ∧ S.IsBrought key ((Resolving.resolve weights room [] key).run σ).2 := by
  obtain ⟨-, hkeeps⟩ := Resolving.keeps_resolve horderly S room key σ hroom
  obtain ⟨hfollows', hanswers⟩ := hkeeps hfollows nofun nofun
  refine ⟨hfollows', fun hcovers t ht hflag => ?_⟩
  -- Nothing is on the chain here, so that no excuse is left: the answer is that of the view.
  obtain ⟨hanswer, hopen⟩ := hanswers hcovers List.not_mem_nil
  have hopen := hopen t ht hflag
  unfold Settling.Answers at hanswer
  cases hview : S.view key with
  | declared | adopts =>
    rw [hview] at hanswer
    rcases hopen with hverdict | ⟨hverdict, -⟩ <;> cases hverdict.symm.trans hanswer
  | pending =>
    rw [hview] at hanswer
    rcases hanswer with hverdict | ⟨-, other, hmem, -⟩
    · rcases hopen with hblocked | ⟨-, hfallBack⟩
      · cases hblocked.symm.trans hverdict
      · exact ⟨rfl, hfallBack⟩
    · cases hmem
  | dead =>
    rw [hview] at hanswer
    rcases hanswer with hverdict | ⟨-, hchain⟩
    · rcases hopen with hverdict' | ⟨hverdict', -⟩ <;> cases hverdict'.symm.trans hverdict
    · exact absurd rfl hchain

/-- A sweep over a table that follows the settling goes on to follow it. -/
theorem Settling.Follows.sweep {S : table.Settling weights} {after : SymbolTable}
    (horderly : table.Orderly) (h : S.Follows { table := after }) :
    S.Follows (after.sweep weights)
      ∧ ∀ key ∈ after.flagged, S.IsBrought key (after.sweep weights) := by
  refine sweep_induction after weights (P := fun σ => S.Follows σ) h fun key σ hroom hfollows => ?_
  obtain ⟨hfollows', hbrought⟩ := isBrought_resolve horderly S after.size key σ hroom hfollows
  refine ⟨hfollows', hbrought, fun other hother hcovers t ht hflag => ?_⟩
  obtain ⟨s, hs, hst⟩ := (evolves_resolve weights after.size key σ hroom).exists_before ht
  have hflag_before : s.needsUpdate = true := by
    by_contra hsettled
    rw [hst.eq_of_unflagged (by simpa using hsettled)] at hflag
    exact hsettled hflag
  obtain ⟨hview, hfallBack⟩ := hother hcovers s hs hflag_before
  exact ⟨hview, hst.fallBack_eq hfallBack hflag⟩

/-- **An update brings every symbol to its judgement.** What is not flagged has to show it already;
the order of the table and what the settling does not cover have no say. -/
theorem shows_update (horderly : table.Orderly) (S : table.Settling weights)
    (hstart : ∀ key s, S.covers key → table.get? key = some s → s.needsUpdate = false →
      s.Shows (S.view key))
    (hcovers : S.covers key) (ht : (table.update weights).1.get? key = some t) :
    t.Shows (S.view key) := by
  have hinit : S.Follows { table } :=
    ⟨.refl table, fun hcovers hget hsettled => hstart _ _ hcovers hget hsettled, nofun⟩
  obtain ⟨hfirst, -⟩ := hinit.sweep horderly
  -- The second sweep starts with nothing remembered.
  have hbetween : S.Follows { table := (table.sweep weights).table } :=
    ⟨hfirst.evolves, hfirst.settled, nofun⟩
  obtain ⟨hsecond, hbrought⟩ := hbetween.sweep horderly
  rw [get?_update] at ht
  obtain ⟨u, hu, rfl⟩ := Option.map_eq_some_iff.1 ht
  cases hflag : u.needsUpdate with
  | false =>
    have hclear : { u with needsUpdate := false } = u := by rw [← hflag]
    rw [hclear]
    exact hsecond.settled hcovers hu hflag
  | true =>
    obtain ⟨s, hs, hsu⟩ := (evolves_sweep (table.sweep weights).table weights).exists_before hu
    have hflag_before : s.needsUpdate = true := by
      by_contra hsettled
      rw [hsu.eq_of_unflagged (by simpa using hsettled)] at hflag
      exact hsettled hflag
    obtain ⟨hview, hfallBack⟩ := hbrought key (mem_flagged_of_get? hs hflag_before) hcovers u hu hflag
    rw [hview]
    refine ⟨(horderly.evolves hsecond.evolves hu hflag).2.2, ?_⟩
    show { u.fallBack with needsUpdate := false } = { u with needsUpdate := false }
    rw [hfallBack]

end SymbolTable

end StoryCheck
