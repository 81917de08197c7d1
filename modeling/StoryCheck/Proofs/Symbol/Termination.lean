import StoryCheck.Proofs.Symbol.Evolution

/-!
# Resolution ends

`Resolving.resolve` counts down the room on its chain, and answers `blocked` where none is left. That
answer is never given: the search ends of itself, because a symbol is walked below a chain only if
it is flagged and not on the chain yet.

* **`Runs`** — what an attempt does, as a derivation that knows nothing of room. Each walk in it puts
  its symbol on the chain, and the chains that come up satisfy a given predicate.
* **`runs_resolve`** — an attempt has such a derivation, with chains that hold no key twice and only
  keys that are flagged. That bounds the length of the chains (`Runs.maxDepth_le`).
* **`Narrows`** — what an attempt does to the list of symbols: nothing to what goals say, and flags
  are only taken off.
* **`update_terminates`** — both sweeps of an update, and what the update leaves alone.
-/

namespace StoryCheck

/-- A chain of symbols that are being resolved: none twice, all flagged. -/
def SymbolTable.IsChain (table : SymbolTable) (chain : List SymbolKey) : Prop :=
  chain.Nodup ∧ chain ⊆ table.flagged

/-- A chain is no longer than the list of symbols that are flagged. -/
theorem SymbolTable.IsChain.length_le {table : SymbolTable} {chain : List SymbolKey}
    (h : table.IsChain chain) : chain.length ≤ table.flagged.length :=
  h.1.length_le_of_subset h.2

namespace Resolving

variable {weights : Weights} {chain : List SymbolKey} {key : SymbolKey} {σ σ' : Sweep}
  {s : StorySymbol} {found : Option Adoption} {failures : Failures} {verdict : Resolution}

/-! ## Attempts without room

The program counts how deep it may go. A derivation does without such a count, and still is finite.
There is one, as each walk puts a new key on the chain, and a chain has no more keys than the table. -/

/-- The end of a walk: what was found is adopted, or else the symbol is settled. -/
def close (weights : Weights) (chain : List SymbolKey) (key : SymbolKey) (s : StorySymbol)
    (found : Option Adoption) (failures : Failures) : Resolving Resolution := do
  match found with
  | some (index, d, types) =>
    modifySymbol key fun s => s.adopt index d types
    return .resolved
  | none => settle key chain.isEmpty (!(s.candidates weights).isEmpty) s.isDatabase failures

/-- An attempt in which every walk puts its symbol on a chain that satisfies `IsChain`. A derivation
is finite, so an attempt that has one comes to an end, however much room there is. -/
inductive Runs (weights : Weights) (IsChain : List SymbolKey → Prop) :
    List SymbolKey → SymbolKey → Sweep → Resolution → Sweep → Prop where
  | known {chain : List SymbolKey} {key : SymbolKey} {σ : Sweep} {verdict : Resolution}
      (hlook : toWalk σ chain key = .error verdict) : Runs weights IsChain chain key σ verdict σ
  | walked {chain : List SymbolKey} {key : SymbolKey} {σ σ' : Sweep} {s : StorySymbol}
      {found : Option Adoption} {failures : Failures}
      {R : SymbolKey → Sweep → Resolution → Sweep → Prop}
      (hlook : toWalk σ chain key = .ok s) (hchain : IsChain (key :: chain))
      (hattempts : ∀ other σ verdict σ', R other σ verdict σ' →
        Runs weights IsChain (key :: chain) other σ verdict σ')
      (hsearch : Searches R (s.candidates weights) {} (σ.visit chain) found failures σ') :
      Runs weights IsChain chain key σ ((close weights chain key s found failures).run σ').1
        ((close weights chain key s found failures).run σ').2

/-- Attempts at the root on some symbols, one after the other. -/
inductive RunsThrough (weights : Weights) (IsChain : List SymbolKey → Prop) :
    List SymbolKey → Sweep → Sweep → Prop where
  | nil (σ : Sweep) : RunsThrough weights IsChain [] σ σ
  | cons {key : SymbolKey} {rest : List SymbolKey} {σ σ₁ σ' : Sweep} {verdict : Resolution}
      (hattempt : Runs weights IsChain [] key σ verdict σ₁)
      (hrest : RunsThrough weights IsChain rest σ₁ σ') :
      RunsThrough weights IsChain (key :: rest) σ σ'

/-- What is done at the end of a walk without a definition to adopt, in its four cases. -/
theorem run_close_none (σ : Sweep) :
    (close weights chain key s none failures).run σ
      = if failures.pending then (.pending, (σ.modify key .fallBack).remember key failures)
        else if failures.blocked && !chain.isEmpty then (.blocked, σ)
        else if !(!(s.candidates weights).isEmpty) && !s.isDatabase then
          (.pending, σ.modify key .waitForDefinition)
        else (.dead, σ.modify key .markDead) :=
  run_settle key chain.isEmpty (!(s.candidates weights).isEmpty) s.isDatabase failures σ

/-- The end of a walk does not go down any further. -/
theorem maxDepth_close (σ : Sweep) :
    ((close weights chain key s found failures).run σ).2.maxDepth = σ.maxDepth := by
  cases found with
  | some adoption => rfl
  | none =>
    rw [run_close_none]
    split
    · show ((σ.modify key .fallBack).remember key failures).maxDepth = _
      unfold Sweep.remember
      split <;> rfl
    · split
      · rfl
      · split <;> rfl

/-- A symbol without candidates is walked in vain. -/
theorem Walked.of_undefined {R : SymbolKey → Sweep → Resolution → Sweep → Prop}
    (hlook : toWalk σ chain key = .ok s) (hcandidates : s.candidates weights = []) :
    Walked R weights chain key σ s none {} (σ.visit chain) := by
  obtain ⟨hget, hflag, hpending, hfresh⟩ := toWalk_eq_ok_iff.1 hlook
  refine
    { get?_eq := hget, flagged := hflag, not_pending := hpending, fresh := hfresh
      stays := .visit (key :: chain) chain σ, searches := ?_ }
  rw [hcandidates]
  exact .exhausted {} (σ.visit chain)

/-- A walk has a derivation if the attempts in it have. -/
theorem Walked.runs {base : SymbolTable}
    (h : Walked (fun other σ verdict σ' => Attempt (key :: chain) other σ verdict σ'
      ∧ (base.Evolves σ.table → base.IsChain (key :: chain) →
        Runs weights base.IsChain (key :: chain) other σ verdict σ'))
      weights chain key σ s found failures σ')
    (hevolves : base.Evolves σ.table) (hchain : base.IsChain chain) :
    Runs weights base.IsChain chain key σ ((close weights chain key s found failures).run σ').1
      ((close weights chain key s found failures).run σ').2 := by
  -- A symbol that is flagged now was flagged when the sweep began.
  obtain ⟨s₀, hget₀, hs₀⟩ := hevolves.exists_before h.get?_eq
  have hflagged : key ∈ base.flagged :=
    SymbolTable.mem_flagged_of_get? hget₀ (hs₀.flagged_before h.flagged)
  have hlonger : base.IsChain (key :: chain) :=
    ⟨List.nodup_cons.2 ⟨h.fresh, hchain.1⟩, List.cons_subset.2 ⟨hflagged, hchain.2⟩⟩
  refine .walked (toWalk_eq_ok_iff.2 ⟨h.get?_eq, h.flagged, h.not_pending, h.fresh⟩) hlonger ?_
    (h.searches.located fun _ _ _ _ hR => hR.1.toStays)
  rintro other σ₁ verdict σ₂ ⟨⟨-, hruns⟩, -, hbehind, -⟩
  exact hruns (hevolves.trans hbehind.evolves) hlonger

/-- An attempt has a derivation if the room is as much as the table has symbols. -/
theorem runs_resolve (base : SymbolTable) (room : Nat) (key : SymbolKey) (σ : Sweep)
    (hroom : σ.table.keys.length ≤ room) (hevolves : base.Evolves σ.table) :
    Runs weights base.IsChain [] key σ ((resolve weights room [] key).run σ).1
      ((resolve weights room [] key).run σ).2 := by
  -- The room goes down with every symbol on the chain, and those are different symbols of the
  -- table.
  have hend := (attempt_induction weights
    (motive := fun chain key σ verdict σ' => base.Evolves σ.table → base.IsChain chain →
      Runs weights base.IsChain chain key σ verdict σ')
    ?known ?adopted ?pending ?blocked ?undefined ?dead room key σ hroom).2
  exact hend hevolves ⟨.nil, List.nil_subset _⟩
  -- The ways in which an attempt ends are the branches of `close`.
  case known => exact fun hlook _ _ => .known hlook
  case adopted =>
    intro chain key σ s σ' index d types failures hwalked hevolves hchain
    exact hwalked.runs hevolves hchain
  case pending =>
    intro chain key σ s σ' failures hwalked hpending hevolves hchain
    have hruns := hwalked.runs hevolves hchain
    rwa [run_close_none, if_pos hpending] at hruns
  case blocked =>
    intro chain key σ s σ' failures hwalked hpending hblocked hbelow hevolves hchain
    have hruns := hwalked.runs hevolves hchain
    rwa [run_close_none, if_neg (by simp [hpending]), if_pos (by simp [hblocked, hbelow])] at hruns
  case undefined =>
    intro chain key σ s hlook hcandidates hdatabase hevolves hchain
    have hruns := (Walked.of_undefined hlook hcandidates).runs hevolves hchain
    rwa [run_close_none, if_neg nofun, if_neg nofun,
      if_pos (by simp [hcandidates, hdatabase])] at hruns
  case dead =>
    intro chain key σ s σ' failures hwalked hpending hroot hnone hevolves hchain
    have hruns := hwalked.runs hevolves hchain
    have hnotBlocked : ¬ (failures.blocked && !chain.isEmpty) = true := by
      simpa using hroot
    have hgivesUp : ¬ (!(!(s.candidates weights).isEmpty) && !s.isDatabase) = true := by
      simpa using hnone
    rwa [run_close_none, if_neg (by simp [hpending]), if_neg hnotBlocked, if_neg hgivesUp] at hruns

/-- Every chain is put on with a visit, so the depth stays within any bound on the length of
chains. -/
theorem Runs.maxDepth_le {IsChain : List SymbolKey → Prop} {bound : Nat}
    (hbound : ∀ chain, IsChain chain → chain.length ≤ bound)
    (h : Runs weights IsChain chain key σ verdict σ') (hσ : σ.maxDepth ≤ bound) :
    σ'.maxDepth ≤ bound := by
  induction h with
  | known => exact hσ
  | walked _ hchain _ hsearch ih =>
    rw [maxDepth_close]
    have hlength := hbound _ hchain
    exact hsearch.keep (P := fun σ => σ.maxDepth ≤ bound) ih (Nat.max_le.2 ⟨hσ, hlength⟩)

/-- A whole sweep goes down no further than its chains are long. -/
theorem RunsThrough.maxDepth_le {IsChain : List SymbolKey → Prop} {bound : Nat}
    {keys : List SymbolKey} (hbound : ∀ chain, IsChain chain → chain.length ≤ bound)
    (h : RunsThrough weights IsChain keys σ σ') (hσ : σ.maxDepth ≤ bound) :
    σ'.maxDepth ≤ bound := by
  -- The bound is kept from one attempt to the next.
  induction h with
  | nil => exact hσ
  | cons hattempt _ ih => exact ih (hattempt.maxDepth_le hbound hσ)

end Resolving

/-! ## The list of symbols

A walk changes verdicts. What goals say about a symbol is what it was, and a flag that was not set
is not set by it. -/

namespace SymbolTable

variable {table before after third : SymbolTable} {weights : Weights}

/-- What goals say stays, and flags are only taken off. This is about all symbols that stand in the
list, also those that no lookup reaches. -/
structure Narrows (before after : SymbolTable) : Prop where
  evidence : after.symbols.map StorySymbol.evidence = before.symbols.map StorySymbol.evidence
  flagged : after.flagged.Sublist before.flagged

/-- Nothing is changed. -/
theorem Narrows.refl (table : SymbolTable) : table.Narrows table := ⟨rfl, .refl _⟩

/-- Two changes after one another. -/
theorem Narrows.trans (h : before.Narrows after) (h' : after.Narrows third) :
    before.Narrows third :=
  ⟨h'.evidence.trans h.evidence, h'.flagged.trans h.flagged⟩

/-- A change of every symbol that leaves what goals say and sets no flag. -/
theorem narrows_map {f : StorySymbol → StorySymbol} (hevidence : ∀ s, (f s).evidence = s.evidence)
    (hflag : ∀ s, (f s).needsUpdate = true → s.needsUpdate = true) : table.Narrows (table.map f) where
  evidence := by
    rw [map, List.map_map]
    exact List.map_congr_left fun s _ => hevidence s
  flagged := by
    unfold flagged map
    generalize table.symbols = symbols
    induction symbols with
    | nil => exact .slnil
    | cons s rest ih =>
      have hkey : (f s).key = s.key := StorySymbol.key_eq_of_evidence (hevidence s)
      cases hs : (f s).needsUpdate with
      | true => simpa [hs, hflag s hs, hkey] using ih
      | false =>
        rw [List.map_cons, List.filter_cons_of_neg (by simp [hs])]
        exact ih.trans (((List.sublist_cons_self s rest).filter _).map _)

/-- The same for a change of one symbol. -/
theorem narrows_modify {key : SymbolKey} {f : StorySymbol → StorySymbol}
    (hevidence : ∀ s, (f s).evidence = s.evidence)
    (hflag : ∀ s, (f s).needsUpdate = true → s.needsUpdate = true) :
    table.Narrows (table.modify key f) := by
  refine narrows_map (fun s => ?_) fun s => ?_
  · split
    · exact hevidence s
    · rfl
  · split
    · exact hflag s
    · exact id

end SymbolTable

namespace Resolving

variable {weights : Weights} {chain : List SymbolKey} {key : SymbolKey} {σ σ' : Sweep}
  {s : StorySymbol} {found : Option Adoption} {failures : Failures} {verdict : Resolution}

/-- The end of a walk changes one symbol in such a way, or the remembered verdicts. -/
theorem narrows_close (σ : Sweep) :
    σ.table.Narrows ((close weights chain key s found failures).run σ).2.table := by
  -- Each of the outcomes is a change of one symbol, or none.
  cases found with
  | some adoption =>
    obtain ⟨index, d, types⟩ := adoption
    exact SymbolTable.narrows_modify (fun s => s.evidence_adopt index d types) nofun
  | none =>
    rw [run_close_none]
    split
    · show σ.table.Narrows ((σ.modify key .fallBack).remember key failures).table
      rw [Sweep.table_remember]
      exact SymbolTable.narrows_modify StorySymbol.evidence_fallBack fun _ => id
    · split
      · exact .refl σ.table
      · split
        · exact SymbolTable.narrows_modify StorySymbol.evidence_waitForDefinition nofun
        · exact SymbolTable.narrows_modify StorySymbol.evidence_markDead nofun

/-- An attempt does no more than its walks do. -/
theorem Runs.narrows {IsChain : List SymbolKey → Prop}
    (h : Runs weights IsChain chain key σ verdict σ') : σ.table.Narrows σ'.table := by
  -- The changes of the walks below come first, then that of the symbol itself.
  induction h with
  | known => exact .refl _
  | @walked chain key σ σ' s found failures R _ _ _ hsearch ih =>
    have hinside : σ.table.Narrows σ'.table :=
      hsearch.keep (P := fun σ₁ => σ.table.Narrows σ₁.table)
        (fun _ _ _ _ hR hbefore => hbefore.trans (ih _ _ _ _ hR)) (.refl σ.table)
    exact hinside.trans (narrows_close σ')

/-- Nor does a sweep. -/
theorem RunsThrough.narrows {IsChain : List SymbolKey → Prop} {keys : List SymbolKey}
    (h : RunsThrough weights IsChain keys σ σ') : σ.table.Narrows σ'.table := by
  induction h with
  | nil => exact .refl _
  | cons hattempt _ ih => exact hattempt.narrows.trans ih

end Resolving

/-! ## Sweeps and updates

What holds of each attempt at the root holds of a sweep, and what the two sweeps keep an update
keeps. -/

/-- What is known of a symbol from before is never that it is blocked. -/
theorem StorySymbol.resolution_ne_blocked (s : StorySymbol) : s.resolution ≠ .blocked := by
  unfold resolution
  split
  · decide
  · split <;> decide

namespace SymbolTable

open Resolving

variable {base table before after : SymbolTable} {weights : Weights}

/-- A sweep attempts its roots one after the other. What is to hold of the roots that are left has to
hold from whatever the sweep has made of the table. -/
theorem roots_induction (weights : Weights) (hevolves : base.Evolves table)
    {motive : List SymbolKey → Sweep → Sweep → Prop} (nil : ∀ σ, motive [] σ σ)
    (cons : ∀ key rest σ σ', σ.table.keys.length ≤ table.size → base.Evolves σ.table →
      motive rest ((resolve weights table.size [] key).run σ).2 σ' → motive (key :: rest) σ σ') :
    motive table.flagged { table } (table.sweep weights) := by
  suffices h : ∀ (keys : List SymbolKey) (σ : Sweep), σ.table.keys.length ≤ table.size →
      base.Evolves σ.table →
      motive keys σ
        (keys.foldl (fun σ key => ((resolve weights table.size [] key).run σ).2) σ) from
    h table.flagged { table } (Nat.le_of_eq table.size_eq_length_keys.symm) hevolves
  intro keys
  induction keys with
  | nil => exact fun σ _ _ => nil σ
  | cons key rest ih =>
    intro σ hroom hσ
    have hstep := evolves_resolve weights table.size key σ hroom
    exact cons key rest σ _ hroom hσ (ih _ (hstep.keys ▸ hroom) (hσ.trans hstep))

/-- A sweep is one attempt after the other, each with a derivation. -/
theorem runsThrough_sweep (weights : Weights) (hevolves : base.Evolves table) :
    RunsThrough weights base.IsChain table.flagged { table } (table.sweep weights) :=
  roots_induction weights hevolves .nil fun key _ σ _ hroom hσ hrest =>
    .cons (runs_resolve base table.size key σ hroom hσ) hrest

/-- Taking all flags off. -/
theorem narrows_clearFlags (table : SymbolTable) : table.Narrows table.clearFlags :=
  narrows_map (fun _ => rfl) nofun

/-- A sweep changes no more than its attempts. -/
theorem narrows_sweep (table : SymbolTable) (weights : Weights) :
    table.Narrows (table.sweep weights).table :=
  (runsThrough_sweep weights (.refl table)).narrows

/-- An update is two sweeps, and the flags are taken off in the end. -/
theorem narrows_update (table : SymbolTable) (weights : Weights) :
    table.Narrows (table.update weights).1 :=
  ((table.narrows_sweep weights).trans (narrows_sweep _ weights)).trans (narrows_clearFlags _)

/-- Without declaration, a symbol is resolved, dead or pending, and only one of them. -/
theorem count_add_count_add_count (table : SymbolTable) :
    table.count .resolved + table.count .dead + table.count .pending
      = table.symbols.countP fun s => !s.isSystem := by
  unfold count
  induction table.symbols with
  | nil => rfl
  | cons s rest ih =>
    have hone : (if !s.isSystem && s.resolution == .resolved then 1 else 0)
        + (if !s.isSystem && s.resolution == .dead then 1 else 0)
        + (if !s.isSystem && s.resolution == .pending then 1 else 0)
        = if !s.isSystem then 1 else 0 := by
      have hverdict := s.resolution_ne_blocked
      generalize s.resolution = verdict at hverdict
      cases s.isSystem <;> cases verdict <;> simp_all
    simp only [List.countP_cons, ← ih, ← hone]
    omega

/-- No symbol comes or goes, nor does it become one of the header. -/
theorem Narrows.countP_isSystem (h : before.Narrows after) :
    (after.symbols.countP fun s => !s.isSystem) = before.symbols.countP fun s => !s.isSystem := by
  have hcount (symbols : List StorySymbol) : (symbols.countP fun s => !s.isSystem)
      = (symbols.map StorySymbol.evidence).countP fun s => !s.isSystem := by
    rw [List.countP_map]
    rfl
  rw [hcount after.symbols, h.evidence, ← hcount]

/-- **Resolution ends and touches only what is flagged.** Both sweeps of an update have derivations
in which every chain holds no symbol twice and only symbols that were flagged at the start, so no
chain is longer than there are such symbols. Afterwards no symbol is flagged; a symbol that was not
flagged is what it was; what goals say of the symbols, and their order, stays; and each symbol
without declaration is counted once. -/
theorem update_terminates (table : SymbolTable) (weights : Weights) :
    let first := table.sweep weights
    let after := (table.update weights).1
    let stats := (table.update weights).2
    RunsThrough weights table.IsChain table.flagged { table } first
      ∧ RunsThrough weights table.IsChain first.table.flagged { table := first.table }
          (first.table.sweep weights)
      ∧ stats.maxDepth ≤ table.flagged.length
      ∧ (∀ s ∈ after.symbols, s.needsUpdate = false)
      ∧ (∀ key s, table.get? key = some s → s.needsUpdate = false → after.get? key = some s)
      ∧ after.symbols.map StorySymbol.evidence = table.symbols.map StorySymbol.evidence
      ∧ stats.resolved + stats.dead + stats.pending
          = table.symbols.countP fun s => !s.isSystem := by
  intro first after stats
  have hfirst := runsThrough_sweep weights (.refl table)
  have hsecond := runsThrough_sweep weights (table.evolves_sweep weights)
  have hnarrows := table.narrows_update weights
  refine ⟨hfirst, hsecond, ?depth, ?flags, ?others, hnarrows.evidence, ?counts⟩
  case depth =>
    have hbound (chain : List SymbolKey) (h : table.IsChain chain) := h.length_le
    exact Nat.max_le.2 ⟨hfirst.maxDepth_le hbound (Nat.zero_le _),
      hsecond.maxDepth_le hbound (Nat.zero_le _)⟩
  case flags =>
    intro s hs
    obtain ⟨t, -, rfl⟩ := List.mem_map.1 hs
    rfl
  case others => exact fun key s hget hsettled => get?_update_of_unflagged hget hsettled
  case counts =>
    rw [← hnarrows.countP_isSystem]
    exact after.count_add_count_add_count

/-- A database that is filled from itself only, beside one that is settled. -/
def lonelyCircle : SymbolTable :=
  let fromItself : SymbolDefinition :=
    { goal := "G", span := ⟨0, 1⟩, start := 0, kind := .database, access := .write
      parameters := [{ name := "_v", source := .reference ⟨⟨"DB_Self", 1⟩, 0⟩, flow := none }] }
  ⟨[{ StorySymbol.ofKey ⟨"DB_Self", 1⟩ with definitions := [fromItself] },
    { StorySymbol.ofKey ⟨"DB_Settled", 1⟩ with needsUpdate := false }]⟩

/-- Two symbols that wait for one another are settled within one step of depth, and the symbol
beside them is left alone. -/
theorem lonelyCircle_ends :
    (lonelyCircle.update []).2.maxDepth ≤ 1
      ∧ (lonelyCircle.update []).1.get? ⟨"DB_Settled", 1⟩
          = lonelyCircle.get? ⟨"DB_Settled", 1⟩ := by
  obtain ⟨-, -, hdepth, -, hothers, -⟩ := update_terminates lonelyCircle []
  exact ⟨hdepth, hothers ⟨"DB_Settled", 1⟩ _ rfl rfl⟩

end SymbolTable

end StoryCheck
