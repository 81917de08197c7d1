import StoryCheck.Proofs.Symbol.Upkeep

/-!
# Resolving everything anew

To resolve everything anew is to take back every resolution and to update the table. What was
resolved before is not thrown away in the course of it: a flagged symbol keeps the parameters that
it had, with their types and origins, until an attempt writes others. This module compares two runs,
one from a table and one from the table that the first run leaves.

## The architecture

* **`StorySymbol.Twin`** — symbols that differ, as long as they are flagged, only in their parameters,
  and then only in the names of these.
* **`mirrors_resolve`** — in sweeps over twins every attempt comes to the same verdict and leaves
  twins. That nothing stale is read is decided here: a type is read off a symbol only if that symbol
  was found resolved, and then it is settled.
* **`StorySymbol.NamedAfter`** — the names of parameters, which attempts do not read, are those of the
  adopted definition, or else those from before.
* **`resolveAll_resolveAll`** — resolving everything twice is resolving everything once.
-/

namespace StoryCheck

/-! ## Twins

Taking back forgets all of a verdict but the names of parameters. Symbols that differ in these alone
are twins, and all steps of resolution come to the same for twins. -/

/-- A parameter but for its name. -/
def SymbolParameter.unnamed (p : SymbolParameter) : SymbolParameter := { p with name := "" }

namespace SymbolParameter

/-- A parameter is its name and the rest. -/
theorem eq_of_unnamed {ps qs : List SymbolParameter} (hnames : ps.map (·.name) = qs.map (·.name))
    (hunnamed : ps.map unnamed = qs.map unnamed) : ps = qs := by
  induction ps generalizing qs with
  | nil => exact (List.map_eq_nil_iff.1 hnames.symm).symm
  | cons p ps ih =>
    cases qs with
    | nil => cases hnames
    | cons q qs =>
      simp only [List.map_cons, List.cons.injEq] at hnames hunnamed
      obtain ⟨name, type, flow, origin⟩ := p
      obtain ⟨name', type', flow', origin'⟩ := q
      simp only [unnamed, mk.injEq, true_and] at hnames hunnamed
      obtain ⟨rfl, hnames⟩ := hnames
      obtain ⟨⟨rfl, rfl, rfl⟩, hunnamed⟩ := hunnamed
      rw [ih hnames hunnamed]

end SymbolParameter

namespace StorySymbol

variable {s t : StorySymbol}

/-- The names of the parameters. -/
def parameterNames (s : StorySymbol) : List String := s.parameters.map (·.name)

/-- The parameters but for their names. -/
def unnamed (s : StorySymbol) : List SymbolParameter := s.parameters.map (·.unnamed)

/-- A symbol is what goals say about it and what resolution wrote. -/
theorem eq_of_evidence (hevidence : s.evidence = t.evidence) (hparameters : s.parameters = t.parameters)
    (hcanonical : s.canonical = t.canonical) (hdead : s.isDead = t.isDead)
    (hflag : s.needsUpdate = t.needsUpdate) : s = t := by
  have hs : s = { s.evidence with
      parameters := s.parameters, canonical := s.canonical
      isDead := s.isDead, needsUpdate := s.needsUpdate } := rfl
  rw [hs, hevidence, hparameters, hcanonical, hdead, hflag]
  rfl

theorem parameterNames_fallBack (s : StorySymbol) :
    s.fallBack.parameterNames = s.parameterNames := by
  refine List.ext_getElem? fun index => ?_
  simp only [parameterNames, List.getElem?_map, getElem?_parameters_fallBack, Option.map_map]
  rfl

theorem parameterNames_invalidate (s : StorySymbol) :
    s.invalidate.parameterNames = s.parameterNames := by
  unfold invalidate
  split <;> rfl

/-- A definition with a type for each parameter gives them its own names. -/
theorem parameterNames_adopt (s : StorySymbol) (index : Nat) {d : SymbolDefinition}
    {types : List (ValueType × Option ParameterRef)} (hlength : types.length = d.parameters.length) :
    (s.adopt index d types).parameterNames = d.parameters.map (·.name) := by
  have hzip : (types.zip (d.parameters.map (·.name))).map (·.2) = d.parameters.map (·.name) :=
    List.map_snd_zip (by simp [hlength])
  unfold parameterNames adopt
  dsimp only
  rw [List.map_map]
  conv_rhs => rw [← hzip, ← List.zipIdx_map_fst 0 (types.zip _), List.map_map]
  rfl

/-- What a definition gives its symbol hangs on the definitions alone, not on its place. -/
theorem parameters_adopt_congr (hdefinitions : s.definitions = t.definitions) (m n : Nat)
    (d : SymbolDefinition) (types : List (ValueType × Option ParameterRef)) :
    (s.adopt m d types).parameters = (t.adopt n d types).parameters := by
  unfold adopt statedFlow
  rw [hdefinitions]

/-- What a symbol falls back to hangs, names apart, on its definitions and on how many parameters it
has. -/
theorem unnamed_fallBack_congr (hdefinitions : s.definitions = t.definitions)
    (hlength : s.parameters.length = t.parameters.length) :
    s.fallBack.unnamed = t.fallBack.unnamed := by
  refine List.ext_getElem? fun index => ?_
  unfold unnamed
  rw [List.getElem?_map, List.getElem?_map, getElem?_parameters_fallBack,
    getElem?_parameters_fallBack, Option.map_map, Option.map_map]
  unfold explicitTypes statedFlow
  rw [hdefinitions]
  by_cases hindex : index < s.parameters.length
  · rw [List.getElem?_eq_getElem hindex, List.getElem?_eq_getElem (hlength ▸ hindex)]
    rfl
  · rw [List.getElem?_eq_none (Nat.le_of_not_lt hindex),
      List.getElem?_eq_none (hlength ▸ Nat.le_of_not_lt hindex)]

/-- Two symbols that resolution cannot tell apart: as long as they are flagged they may differ in
their parameters, and once they are settled only in the names of these. -/
structure Twin (s t : StorySymbol) : Prop where
  evidence : s.evidence = t.evidence
  flag : s.needsUpdate = t.needsUpdate
  isDead : s.isDead = t.isDead
  canonical : s.canonical = t.canonical
  length : s.parameters.length = t.parameters.length
  settled : s.needsUpdate = false → s.unnamed = t.unnamed

namespace Twin

theorem refl (s : StorySymbol) : s.Twin s := ⟨rfl, rfl, rfl, rfl, rfl, fun _ => rfl⟩

theorem definitions (h : s.Twin t) : s.definitions = t.definitions :=
  definitions_eq_of_evidence h.evidence

theorem resolution (h : s.Twin t) : s.resolution = t.resolution := by
  unfold StorySymbol.resolution
  rw [h.isDead, isSystem_eq_of_evidence h.evidence, h.canonical]

theorem parameters_adopt (h : s.Twin t) (index : Nat) (d : SymbolDefinition)
    (types : List (ValueType × Option ParameterRef)) :
    (s.adopt index d types).parameters = (t.adopt index d types).parameters :=
  parameters_adopt_congr h.definitions index index d types

theorem unnamed_fallBack (h : s.Twin t) : s.fallBack.unnamed = t.fallBack.unnamed :=
  unnamed_fallBack_congr h.definitions h.length

theorem adopt (h : s.Twin t) (index : Nat) (d : SymbolDefinition)
    (types : List (ValueType × Option ParameterRef)) :
    (s.adopt index d types).Twin (t.adopt index d types) where
  evidence := h.evidence
  flag := rfl
  isDead := rfl
  canonical := rfl
  length := congrArg List.length (h.parameters_adopt index d types)
  settled _ := congrArg (List.map SymbolParameter.unnamed) (h.parameters_adopt index d types)

theorem length_fallBack (h : s.Twin t) :
    s.fallBack.parameters.length = t.fallBack.parameters.length := by
  simpa [StorySymbol.fallBack] using h.length

theorem fallBack (h : s.Twin t) : s.fallBack.Twin t.fallBack where
  evidence := h.evidence
  flag := h.flag
  isDead := h.isDead
  canonical := rfl
  length := h.length_fallBack
  settled _ := h.unnamed_fallBack

theorem markDead (h : s.Twin t) : s.markDead.Twin t.markDead where
  evidence := h.evidence
  flag := rfl
  isDead := rfl
  canonical := rfl
  length := h.length_fallBack
  settled _ := h.unnamed_fallBack

theorem waitForDefinition (h : s.Twin t) : s.waitForDefinition.Twin t.waitForDefinition where
  evidence := h.evidence
  flag := rfl
  isDead := h.isDead
  canonical := rfl
  length := h.length_fallBack
  settled _ := h.unnamed_fallBack

/-- Inferred symbols about which goals say the same are twins once their resolution is taken back. -/
theorem invalidate (hinferred : s.isSystem = false) (hevidence : s.evidence = t.evidence)
    (hlength : s.parameters.length = t.parameters.length) : s.invalidate.Twin t.invalidate := by
  have hinferred' : t.isSystem = false := (isSystem_eq_of_evidence hevidence).symm.trans hinferred
  have hinvalidate {u : StorySymbol} (hu : u.isSystem = false) :
      u.invalidate = { u with isDead := false, needsUpdate := true, canonical := none } := by
    simp [StorySymbol.invalidate, hu]
  rw [hinvalidate hinferred, hinvalidate hinferred']
  exact
    { evidence := hevidence, flag := rfl, isDead := rfl, canonical := rfl, length := hlength
      settled := fun hsettled => absurd hsettled (by simp) }

/-- The types of a settled symbol are those of its twin. -/
theorem type_eq (h : s.Twin t) (hsettled : s.needsUpdate = false) (index : Nat) :
    s.parameters[index]?.map (·.type) = t.parameters[index]?.map (·.type) := by
  have hunnamed (u : StorySymbol) :
      u.parameters[index]?.map (·.type) = u.unnamed[index]?.map (·.type) := by
    rw [StorySymbol.unnamed, List.getElem?_map, Option.map_map]
    rfl
  rw [hunnamed, hunnamed, h.settled hsettled]

/-- Twins of the same names differ in nothing once those that are still flagged have fallen back. -/
theorem settle_eq (h : s.Twin t) (hnames : s.parameterNames = t.parameterNames)
    (hs : s.needsUpdate = true → s.fallBack = s) (ht : t.needsUpdate = true → t.fallBack = t) :
    { s with needsUpdate := false } = { t with needsUpdate := false } := by
  have hunnamed : s.unnamed = t.unnamed := by
    cases hflag : s.needsUpdate with
    | false => exact h.settled hflag
    | true =>
      rw [← hs hflag, ← ht (h.flag ▸ hflag)]
      exact h.unnamed_fallBack
  exact eq_of_evidence h.evidence (SymbolParameter.eq_of_unnamed hnames hunnamed) h.canonical h.isDead
    rfl

end Twin

end StorySymbol

namespace SymbolTable

/-- Tables of the same keys in the same order, with twins for symbols. -/
structure Twin (a b : SymbolTable) : Prop where
  keys : a.keys = b.keys
  symbol : ∀ {key s t}, a.get? key = some s → b.get? key = some t → s.Twin t

namespace Twin

variable {a b : SymbolTable} {key : SymbolKey} {s t : StorySymbol}

theorem get?_eq_none_iff (h : a.Twin b) : a.get? key = none ↔ b.get? key = none := by
  rw [SymbolTable.get?_eq_none_iff, SymbolTable.get?_eq_none_iff, h.keys]

theorem exists_twin (h : a.Twin b) (hget : a.get? key = some s) :
    ∃ t, b.get? key = some t ∧ s.Twin t := by
  have hkey : key ∈ b.keys := h.keys ▸ mem_keys_of_get? hget
  obtain ⟨t, ht⟩ := Option.isSome_iff_exists.1 (get?_isSome_iff.2 hkey)
  exact ⟨t, ht, h.symbol hget ht⟩

theorem modify {f : StorySymbol → StorySymbol} (h : a.Twin b) (hkey : ∀ s, (f s).key = s.key)
    (hf : ∀ {s t}, s.Twin t → (f s).Twin (f t)) :
    (a.modify key f).Twin (b.modify key f) where
  keys := by rw [keys_modify hkey, keys_modify hkey, h.keys]
  symbol {other s t} hs ht := by
    rw [get?_modify hkey] at hs ht
    by_cases heq : other = key
    · rw [if_pos heq] at hs ht
      obtain ⟨u, hu, rfl⟩ := Option.map_eq_some_iff.1 hs
      obtain ⟨v, hv, rfl⟩ := Option.map_eq_some_iff.1 ht
      exact hf (h.symbol hu hv)
    · rw [if_neg heq] at hs ht
      exact h.symbol hs ht

/-- A reference finds the same type in both tables if what it leads to is settled. -/
theorem typeAt_eq (h : a.Twin b) {ref : ParameterRef}
    (hsettled : ∀ s, a.get? ref.symbol = some s → s.needsUpdate = false) :
    a.typeAt ref = b.typeAt ref := by
  unfold typeAt
  cases hs : a.get? ref.symbol with
  | none => rw [h.get?_eq_none_iff.1 hs]
  | some s =>
    obtain ⟨t, ht, htwin⟩ := h.exists_twin hs
    rw [ht]
    exact congrArg (Option.getD · .unknown) (htwin.type_eq (hsettled s hs) ref.index)

end Twin

end SymbolTable

/-! ## Sweeps over twins

Attempt by attempt, two sweeps over twins do the same. The names differ only as long as nothing has
been adopted, for a definition brings names of its own. -/

/-- Sweeps over twins that remember the same. -/
structure Sweep.Twin (σ τ : Sweep) : Prop where
  table : σ.table.Twin τ.table
  pending : σ.pending = τ.pending

theorem Sweep.Twin.modify {σ τ : Sweep} {f : StorySymbol → StorySymbol} (h : σ.Twin τ)
    (key : SymbolKey) (hkey : ∀ s, (f s).key = s.key)
    (hf : ∀ {s t : StorySymbol}, s.Twin t → (f s).Twin (f t)) :
    (σ.modify key f).Twin (τ.modify key f) :=
  ⟨h.table.modify hkey hf, h.pending⟩

theorem Sweep.Twin.remember {σ τ : Sweep} (h : σ.Twin τ) (key : SymbolKey) (failures : Failures) :
    (σ.remember key failures).Twin (τ.remember key failures) := by
  unfold Sweep.remember
  split
  · exact h
  · exact ⟨h.table, congrArg (key :: ·) h.pending⟩

namespace Resolving

variable {σ τ : Sweep} {chain : List SymbolKey} {key : SymbolKey} {weights : Weights}
  {attempt : SymbolKey → Resolving Resolution}

/-- A step that comes to the same in sweeps over twins. -/
def Mirrors {α : Type} (step : Resolving α) : Prop :=
  ∀ ⦃σ τ : Sweep⦄, σ.Twin τ →
    (step.run σ).1 = (step.run τ).1 ∧ (step.run σ).2.Twin (step.run τ).2

/-- An attempt that leaves its symbol settled if it reports it as resolved. -/
def Settles (key : SymbolKey) (attempt : Resolving Resolution) : Prop :=
  ∀ σ, (attempt.run σ).1 = .resolved →
    ∀ s, (attempt.run σ).2.table.get? key = some s → s.needsUpdate = false

/-- The loop over parameters. -/
theorem mirrors_complete (hmirrors : ∀ key, Mirrors (attempt key))
    (hsettles : ∀ key, Settles key (attempt key)) (parameters : List DefinitionParameter) :
    Mirrors (complete attempt parameters) := by
  induction parameters with
  | nil => exact fun σ τ h => ⟨rfl, h⟩
  | cons p rest ih =>
    intro σ τ h
    cases hsource : p.source with
    | explicit type =>
      obtain ⟨hresult, htwin⟩ := ih h
      rw [run_complete_explicit hsource, run_complete_explicit hsource, hresult]
      exact ⟨rfl, htwin⟩
    | unknown =>
      rw [run_complete_unknown hsource, run_complete_unknown hsource]
      exact ⟨rfl, h⟩
    | reference ref =>
      -- Twins give the same verdict, and a symbol that is resolved has the same types in both.
      obtain ⟨hverdict, htwin⟩ := hmirrors ref.symbol h
      have hsettled := hsettles ref.symbol σ
      rw [run_complete_reference hsource, run_complete_reference hsource]
      generalize (attempt ref.symbol).run σ = r at hverdict htwin hsettled
      generalize (attempt ref.symbol).run τ = q at hverdict htwin
      obtain ⟨verdict, σ₁⟩ := r
      obtain ⟨verdict', τ₁⟩ := q
      obtain rfl : verdict = verdict' := hverdict
      cases verdict with
      | resolved =>
        dsimp only
        rw [htwin.table.typeAt_eq (hsettled rfl)]
        split
        · obtain ⟨hresult, htwin⟩ := ih htwin
          rw [hresult]
          exact ⟨rfl, htwin⟩
        · exact ⟨rfl, htwin⟩
      | pending | dead | blocked => exact ⟨rfl, htwin⟩

/-- The loop over candidates. -/
theorem mirrors_firstComplete (hmirrors : ∀ key, Mirrors (attempt key))
    (hsettles : ∀ key, Settles key (attempt key)) (candidates : List (Nat × SymbolDefinition))
    (failures : Failures) : Mirrors (firstComplete attempt candidates failures) := by
  induction candidates generalizing failures with
  | nil => exact fun σ τ h => ⟨rfl, h⟩
  | cons candidate rest ih =>
    intro σ τ h
    obtain ⟨index, d⟩ := candidate
    cases hpartial : d.isPartial with
    | true =>
      rw [run_firstComplete_partial hpartial, run_firstComplete_partial hpartial]
      exact ih _ h
    | false =>
      obtain ⟨hresult, htwin⟩ := mirrors_complete hmirrors hsettles d.parameters h
      rw [run_firstComplete hpartial, run_firstComplete hpartial]
      generalize (complete attempt d.parameters).run σ = r at hresult htwin
      generalize (complete attempt d.parameters).run τ = q at hresult htwin
      obtain ⟨c, σ₁⟩ := r
      obtain ⟨c', τ₁⟩ := q
      obtain rfl : c = c' := hresult
      cases c with
      | ok types => exact ⟨rfl, htwin⟩
      | error why => exact ih _ htwin

/-- Settling a symbol for which no definition is complete. -/
theorem mirrors_settle (key : SymbolKey) (isRoot hasCandidates isDatabase : Bool)
    (failures : Failures) : Mirrors (settle key isRoot hasCandidates isDatabase failures) := by
  intro σ τ h
  rw [run_settle, run_settle]
  split
  · exact ⟨rfl, (h.modify (f := .fallBack) key (fun _ => rfl) .fallBack).remember key failures⟩
  · split
    · exact ⟨rfl, h⟩
    · split
      · exact ⟨rfl, h.modify (f := .waitForDefinition) key (fun _ => rfl) .waitForDefinition⟩
      · exact ⟨rfl, h.modify (f := .markDead) key (fun _ => rfl) .markDead⟩

/-- A walk of twins. They have the same candidates. -/
theorem mirrors_walk {s t : StorySymbol} (hmirrors : ∀ key, Mirrors (attempt key))
    (hsettles : ∀ key, Settles key (attempt key)) (hst : s.Twin t) (h : σ.Twin τ) :
    ((walk weights attempt chain key s).run σ).1 = ((walk weights attempt chain key t).run τ).1
      ∧ ((walk weights attempt chain key s).run σ).2.Twin
        ((walk weights attempt chain key t).run τ).2 := by
  rw [run_walk, run_walk, StorySymbol.candidates_eq_of_evidence hst.evidence,
    StorySymbol.isDatabase_eq_of_evidence hst.evidence]
  obtain ⟨hresult, htwin⟩ := mirrors_firstComplete hmirrors hsettles (t.candidates weights) {}
    (σ := σ.visit chain) (τ := τ.visit chain) ⟨h.table, h.pending⟩
  generalize (firstComplete attempt (t.candidates weights) {}).run (σ.visit chain) = r
    at hresult htwin
  generalize (firstComplete attempt (t.candidates weights) {}).run (τ.visit chain) = q
    at hresult htwin
  obtain ⟨⟨found, failures⟩, σ'⟩ := r
  obtain ⟨⟨found', failures'⟩, τ'⟩ := q
  obtain ⟨rfl, rfl⟩ : found = found' ∧ failures = failures' := Prod.mk.inj hresult
  cases found with
  | some adoption =>
    obtain ⟨index, d, types⟩ := adoption
    exact ⟨rfl, htwin.modify key (fun _ => rfl) fun hst => hst.adopt index d types⟩
  | none => exact mirrors_settle key _ _ _ failures htwin

/-- A walk that adopts a definition settles its symbol. -/
theorem settles_walk (s : StorySymbol) (weights : Weights)
    (attempt : SymbolKey → Resolving Resolution) (chain : List SymbolKey) (key : SymbolKey) :
    Settles key (walk weights attempt chain key s) := by
  intro σ hresolved u hget
  rw [run_walk] at hresolved hget
  generalize (firstComplete attempt (s.candidates weights) {}).run (σ.visit chain) = r
    at hresolved hget
  obtain ⟨⟨found, failures⟩, σ'⟩ := r
  cases found with
  | some adoption =>
    obtain ⟨index, d, types⟩ := adoption
    dsimp only at hget
    rw [Sweep.table_modify, SymbolTable.get?_modify_self fun s => s.key_adopt index d types] at hget
    obtain ⟨v, -, rfl⟩ := Option.map_eq_some_iff.1 hget
    rfl
  | none =>
    dsimp only at hresolved
    rw [run_settle] at hresolved
    split at hresolved
    · cases hresolved
    · split at hresolved
      · cases hresolved
      · split at hresolved <;> cases hresolved

/-- What is known about a symbol is known about its twin. -/
theorem toWalk_twin (h : σ.Twin τ) (chain : List SymbolKey) (key : SymbolKey) :
    (∃ verdict, toWalk σ chain key = .error verdict ∧ toWalk τ chain key = .error verdict)
      ∨ ∃ s t, toWalk σ chain key = .ok s ∧ toWalk τ chain key = .ok t ∧ s.Twin t := by
  unfold toWalk
  cases hs : σ.table.get? key with
  | none =>
    rw [h.table.get?_eq_none_iff.1 hs]
    exact Or.inl ⟨_, rfl, rfl⟩
  | some s =>
    obtain ⟨t, ht, htwin⟩ := h.table.exists_twin hs
    rw [ht, ← h.pending]
    dsimp only
    rw [htwin.flag, htwin.resolution]
    split
    · exact Or.inl ⟨_, rfl, rfl⟩
    · split
      · exact Or.inl ⟨_, rfl, rfl⟩
      · split
        · exact Or.inl ⟨_, rfl, rfl⟩
        · exact Or.inr ⟨s, t, rfl, rfl, htwin⟩

/-- A symbol that is known to be resolved is settled. -/
theorem settled_of_known (hwalk : toWalk σ chain key = .error .resolved) (s : StorySymbol)
    (hget : σ.table.get? key = some s) : s.needsUpdate = false := by
  obtain ⟨t, ht, hsettled, -⟩ := (Attempt.of_known hwalk).resolved rfl
  rw [hget, Option.some.injEq] at ht
  exact ht ▸ hsettled

theorem settles_resolve (weights : Weights) (room : Nat) (chain : List SymbolKey)
    (key : SymbolKey) : Settles key (resolve weights room chain key) := by
  intro σ hresolved s hget
  cases hwalk : toWalk σ chain key with
  | error verdict =>
    rw [run_resolve_of_known hwalk] at hresolved hget
    obtain rfl : verdict = .resolved := hresolved
    exact settled_of_known hwalk s hget
  | ok t =>
    -- Without room the symbol is not walked, and so not reported as resolved.
    cases room with
    | zero =>
      rw [run_resolve_zero, hwalk] at hresolved
      cases hresolved
    | succ room =>
      rw [run_resolve_succ, hwalk] at hresolved hget
      exact settles_walk t weights _ chain key σ hresolved s hget

/-- **Attempts in sweeps over twins come to the same and leave twins**, whatever circles there are. -/
theorem mirrors_resolve (weights : Weights) (room : Nat) (chain : List SymbolKey)
    (key : SymbolKey) : Mirrors (resolve weights room chain key) := by
  induction room generalizing chain key with
  | zero =>
    intro σ τ h
    rw [run_resolve_zero, run_resolve_zero]
    obtain ⟨verdict, hσ, hτ⟩ | ⟨s, t, hσ, hτ, -⟩ := toWalk_twin h chain key
    · rw [hσ, hτ]
      exact ⟨rfl, h⟩
    · rw [hσ, hτ]
      exact ⟨rfl, h⟩
  | succ room ih =>
    intro σ τ h
    rw [run_resolve_succ, run_resolve_succ]
    obtain ⟨verdict, hσ, hτ⟩ | ⟨s, t, hσ, hτ, hst⟩ := toWalk_twin h chain key
    · rw [hσ, hτ]
      exact ⟨rfl, h⟩
    · rw [hσ, hτ]
      exact mirrors_walk (fun other => ih (key :: chain) other)
        (settles_resolve weights room (key :: chain)) hst h

end Resolving

namespace SymbolTable

variable {table a b : SymbolTable} {key : SymbolKey} {s t : StorySymbol} {weights : Weights}

/-- The flagged keys, as lookups see them. -/
theorem flagged_eq_filter (hnodup : table.keys.Nodup) :
    table.flagged = table.keys.filter fun key => (table.get? key).any (·.needsUpdate) := by
  unfold flagged keys
  rw [List.filter_map]
  congr 1
  refine List.filter_congr fun s hmem => ?_
  simp [get?_of_mem hnodup hmem]

theorem Twin.flagged_eq (h : a.Twin b) (hnodup : a.keys.Nodup) : a.flagged = b.flagged := by
  rw [flagged_eq_filter hnodup, flagged_eq_filter (h.keys ▸ hnodup), h.keys]
  refine List.filter_congr fun key _ => ?_
  cases hs : a.get? key with
  | none => rw [h.get?_eq_none_iff.1 hs]
  | some s =>
    obtain ⟨t, ht, htwin⟩ := h.exists_twin hs
    rw [ht]
    exact htwin.flag

/-- Sweeps over twins leave twins. -/
theorem Twin.sweep (h : a.Twin b) (hnodup : a.keys.Nodup) (weights : Weights) :
    (a.sweep weights).table.Twin (b.sweep weights).table := by
  have hsize : a.size = b.size := by rw [size_eq_length_keys, size_eq_length_keys, h.keys]
  unfold SymbolTable.sweep
  rw [← h.flagged_eq hnodup, ← hsize]
  suffices hfold : ∀ (keys : List SymbolKey) (σ τ : Sweep), σ.Twin τ →
      (keys.foldl (fun σ key => ((Resolving.resolve weights a.size [] key).run σ).2) σ).Twin
        (keys.foldl (fun σ key => ((Resolving.resolve weights a.size [] key).run σ).2) τ) from
    (hfold a.flagged { table := a } { table := b } ⟨h, rfl⟩).table
  intro keys
  induction keys with
  | nil => exact fun σ τ h => h
  | cons key rest ih =>
    exact fun σ τ h => ih _ _ (Resolving.mirrors_resolve weights a.size [] key h).2

end SymbolTable

/-! ## Names

Attempts do not read the names of parameters, so twins need not agree on them. They are those of the
definition that a symbol adopted, or else those that it had before. -/

/-- A symbol that was flagged has its names from the definition that it adopted, or else from before.
While it is flagged it has adopted none. -/
structure StorySymbol.NamedAfter (t s : StorySymbol) : Prop where
  waiting : t.needsUpdate = true → t.canonical = none
  kept : t.canonical = none → t.parameterNames = s.parameterNames
  adopted : ∀ {index}, t.canonical = some index →
    ∃ d, t.definitions[index]? = some d ∧ t.parameterNames = d.parameters.map (·.name)

/-- The sweep comes from a table: what was flagged there is named after what it was, and what is
remembered has fallen back. -/
structure Sweep.ComesFrom (start : SymbolTable) (σ : Sweep) : Prop where
  named : ∀ {key s t}, start.get? key = some s → s.needsUpdate = true →
    σ.table.get? key = some t → t.NamedAfter s
  fallen : ∀ {key t}, key ∈ σ.pending → σ.table.get? key = some t → t.needsUpdate = true →
    t.fallBack = t

namespace Sweep.ComesFrom

variable {start : SymbolTable} {σ : Sweep} {key : SymbolKey} {t : StorySymbol}

theorem modify {f : StorySymbol → StorySymbol} (h : σ.ComesFrom start)
    (hkey : ∀ s, (f s).key = s.key) (ht : σ.table.get? key = some t)
    (hnamed : ∀ s, t.NamedAfter s → (f t).NamedAfter s)
    (hfallen : (f t).needsUpdate = true → (f t).fallBack = f t) :
    (σ.modify key f).ComesFrom start where
  named {other s u} hs hflag hu := by
    rw [table_modify, SymbolTable.get?_modify hkey] at hu
    by_cases heq : other = key
    · rw [if_pos heq, ht, Option.map_some, Option.some.injEq] at hu
      subst heq hu
      exact hnamed s (h.named hs hflag ht)
    · rw [if_neg heq] at hu
      exact h.named hs hflag hu
  fallen {other u} hmem hu hflag := by
    rw [table_modify, SymbolTable.get?_modify hkey] at hu
    by_cases heq : other = key
    · rw [if_pos heq, ht, Option.map_some, Option.some.injEq] at hu
      subst hu
      exact hfallen hflag
    · rw [if_neg heq] at hu
      exact h.fallen hmem hu hflag

theorem remember (h : σ.ComesFrom start) (failures : Failures) (ht : σ.table.get? key = some t)
    (hfallen : t.fallBack = t) : (σ.remember key failures).ComesFrom start where
  named {other s u} hs hflag hu := by
    rw [table_remember] at hu
    exact h.named hs hflag hu
  fallen {other u} hmem hu hflag := by
    rw [table_remember] at hu
    rcases mem_pending_remember.1 hmem with hmem | ⟨rfl, -⟩
    · exact h.fallen hmem hu hflag
    · rw [ht, Option.some.injEq] at hu
      exact hu ▸ hfallen

end Sweep.ComesFrom

namespace StorySymbol.NamedAfter

variable {s t : StorySymbol}

theorem adopt (index : Nat) {d : SymbolDefinition} {types : List (ValueType × Option ParameterRef)}
    (hd : t.definitions[index]? = some d) (hlength : types.length = d.parameters.length) :
    (t.adopt index d types).NamedAfter s where
  waiting := nofun
  kept := nofun
  adopted := by
    rintro _ ⟨⟩
    exact ⟨d, hd, t.parameterNames_adopt index hlength⟩

theorem fallBack (h : t.NamedAfter s) (hflag : t.needsUpdate = true) : t.fallBack.NamedAfter s where
  waiting _ := rfl
  kept _ := t.parameterNames_fallBack.trans (h.kept (h.waiting hflag))
  adopted := nofun

theorem settle (h : t.NamedAfter s) (hcanonical : t.canonical = none) (isDead : Bool) :
    { t with isDead, needsUpdate := false }.NamedAfter s where
  waiting := nofun
  kept := h.kept
  adopted hadopted := absurd (hcanonical.symm.trans hadopted) nofun

/-- Twins have the same names if one of them had before what the other has now. -/
theorem parameterNames_eq {t' s' : StorySymbol} (h : t.NamedAfter s) (h' : t'.NamedAfter s')
    (htwin : t.Twin t') (hs' : s'.parameterNames = t.parameterNames) :
    t.parameterNames = t'.parameterNames := by
  cases hcanonical : t.canonical with
  | none => rw [h'.kept (htwin.canonical ▸ hcanonical), hs']
  | some index =>
    obtain ⟨d, hd, hnames⟩ := h.adopted hcanonical
    obtain ⟨d', hd', hnames'⟩ := h'.adopted (htwin.canonical ▸ hcanonical)
    rw [← htwin.definitions, hd, Option.some.injEq] at hd'
    rw [hnames, hnames', hd']

end StorySymbol.NamedAfter

namespace Resolving

variable {chain : List SymbolKey} {key : SymbolKey} {σ σ' : Sweep} {start : SymbolTable}

theorem Walked.comesFrom {R : SymbolKey → Sweep → Resolution → Sweep → Prop} {weights : Weights}
    {s : StorySymbol} {found : Option Adoption} {failures : Failures}
    (h : Walked R weights chain key σ s found failures σ')
    (hR : ∀ other σ verdict σ', R other σ verdict σ' → σ.ComesFrom start → σ'.ComesFrom start)
    (hfrom : σ.ComesFrom start) : σ'.ComesFrom start :=
  h.searches.keep (P := (·.ComesFrom start)) hR ⟨hfrom.named, hfrom.fallen⟩

/-- Every attempt keeps to the table the sweep comes from. If it leaves a symbol flagged, the symbol
has fallen back or is blocked by the chain. -/
theorem comesFrom_resolve (weights : Weights) (room : Nat) (key : SymbolKey) (σ : Sweep)
    (hroom : σ.table.keys.length ≤ room) (h : σ.ComesFrom start) :
    ((resolve weights room [] key).run σ).2.ComesFrom start
      ∧ ∀ t, ((resolve weights room [] key).run σ).2.table.get? key = some t →
        t.needsUpdate = true → t.fallBack = t := by
  have hattempt := attempt_induction weights
    (motive := fun chain key σ verdict σ' => σ.ComesFrom start → σ'.ComesFrom start
      ∧ ∀ t, σ'.table.get? key = some t → t.needsUpdate = true → chain = [] → t.fallBack = t)
    ?known ?adopted ?pending ?blocked ?undefined ?dead room key σ hroom
  -- The cases are the ways in which a walk ends. The second part is about the start of a chain:
  -- there a symbol that stays flagged has fallen back, be it now or when it was remembered.
  case known =>
    intro chain key σ verdict hwalk h
    refine ⟨h, fun t ht hflag hchain => ?_⟩
    obtain ⟨hnone, -⟩ | ⟨u, hu, hcases⟩ := toWalk_eq_error hwalk
    · exact absurd (hnone.symm.trans ht) nofun
    · rw [ht, Option.some.injEq] at hu
      subst hu
      obtain ⟨hsettled, -⟩ | ⟨-, hmem, -⟩ | ⟨-, -, hmem, -⟩ := hcases
      · exact absurd hflag (by simp [hsettled])
      · exact h.fallen hmem ht hflag
      · exact absurd hmem (by simp [hchain])
  case adopted =>
    intro chain key σ s σ' index d types failures hwalked h
    have hend := hwalked.comesFrom (fun _ _ _ _ hother h => (hother.2 h).1) h
    obtain ⟨hcandidate, -, σ₁, htypes⟩ := hwalked.searches.found_eq
    have hd := (StorySymbol.mem_candidates.1 hcandidate).1
    refine ⟨hend.modify (fun _ => rfl) hwalked.get?_end (fun u _ => .adopt index hd htypes.length_eq)
      nofun, fun t ht hflag => ?_⟩
    rw [hwalked.get?_modify fun s => s.key_adopt index d types, Option.some.injEq] at ht
    subst ht
    cases hflag
  case pending =>
    intro chain key σ s σ' failures hwalked hpending h
    have hend := hwalked.comesFrom (fun _ _ _ _ hother h => (hother.2 h).1) h
    have hget := hwalked.get?_modify (f := .fallBack) fun _ => rfl
    refine ⟨(hend.modify (f := .fallBack) (fun _ => rfl) hwalked.get?_end
      (fun u hu => hu.fallBack hwalked.flagged) fun _ => s.fallBack_fallBack).remember failures hget
        s.fallBack_fallBack, fun t ht _ _ => ?_⟩
    rw [Sweep.table_remember, hget, Option.some.injEq] at ht
    exact ht ▸ s.fallBack_fallBack
  case blocked =>
    intro chain key σ s σ' failures hwalked hpending hblocked hchain h
    have hend := hwalked.comesFrom (fun _ _ _ _ hother h => (hother.2 h).1) h
    exact ⟨hend, fun _ _ _ hroot => absurd hroot hchain⟩
  case undefined =>
    intro chain key σ s hwalk hcandidates hdatabase h
    obtain ⟨hget, hflag, -, -⟩ := toWalk_eq_ok_iff.1 hwalk
    have hvisit : (σ.visit chain).ComesFrom start := ⟨h.named, h.fallen⟩
    refine ⟨hvisit.modify (f := .waitForDefinition) (fun _ => rfl) hget
      (fun u hu => (hu.fallBack hflag).settle rfl s.isDead) nofun, fun t ht hflag => ?_⟩
    rw [Sweep.table_modify, SymbolTable.get?_modify_self StorySymbol.key_waitForDefinition] at ht
    obtain ⟨u, -, rfl⟩ := Option.map_eq_some_iff.1 ht
    cases hflag
  case dead =>
    intro chain key σ s σ' failures hwalked hpending hblocked hcandidates h
    have hend := hwalked.comesFrom (fun _ _ _ _ hother h => (hother.2 h).1) h
    refine ⟨hend.modify (f := .markDead) (fun _ => rfl) hwalked.get?_end
      (fun u hu => (hu.fallBack hwalked.flagged).settle rfl true) nofun, fun t ht hflag => ?_⟩
    rw [hwalked.get?_modify (f := .markDead) (fun _ => rfl), Option.some.injEq] at ht
    subst ht
    cases hflag
  obtain ⟨hfrom, hfallen⟩ := hattempt.2 h
  exact ⟨hfrom, fun t ht hflag => hfallen t ht hflag rfl⟩

end Resolving

/-! ## Sweeps and updates

At the end, parameters are named after what was adopted, or else after what was there from the
start. So the names are the same after a second time. -/

namespace SymbolTable

variable {table start a b : SymbolTable} {key : SymbolKey} {s t u : StorySymbol} {weights : Weights}

theorem comesFrom_sweep {table : SymbolTable} (weights : Weights)
    (h : Sweep.ComesFrom start { table }) :
    (table.sweep weights).ComesFrom start
      ∧ ∀ {key t}, (table.sweep weights).table.get? key = some t → t.needsUpdate = true →
        t.fallBack = t := by
  obtain ⟨hfrom, hfallen⟩ := sweep_induction table weights (P := fun σ => σ.ComesFrom start)
    (Q := fun key σ => ∀ t, σ.table.get? key = some t → t.needsUpdate = true → t.fallBack = t)
    h fun key σ hroom hfrom => by
      obtain ⟨hfrom', hfallen⟩ := Resolving.comesFrom_resolve weights table.size key σ hroom hfrom
      refine ⟨hfrom', hfallen, fun other hother t ht hflag => ?_⟩
      obtain ⟨s, hs, hst⟩ := (evolves_resolve weights table.size key σ hroom).exists_before ht
      exact hst.fallBack_eq (hother s hs (hst.flagged_before hflag)) hflag
  refine ⟨hfrom, fun {key t} ht hflag => hfallen key ?_ t ht hflag⟩
  obtain ⟨s, hs, hst⟩ := (table.evolves_sweep weights).exists_before ht
  exact mem_flagged_of_get? hs (hst.flagged_before hflag)

/-- After two sweeps, what was flagged is named after what it was, and what still is flagged has
fallen back. -/
theorem comesFrom_sweeps
    (hwaiting : ∀ {key s}, table.get? key = some s → s.needsUpdate = true → s.canonical = none)
    (weights : Weights) :
    ((table.sweep weights).table.sweep weights).ComesFrom table
      ∧ ∀ {key t}, ((table.sweep weights).table.sweep weights).table.get? key = some t →
        t.needsUpdate = true → t.fallBack = t := by
  have hinit : Sweep.ComesFrom table { table } :=
    { named := fun hs hflag ht => by
        rw [hs, Option.some.injEq] at ht
        subst ht
        have hnone := hwaiting hs hflag
        exact ⟨fun _ => hnone, fun _ => rfl, fun hsome => absurd (hnone.symm.trans hsome) nofun⟩
      fallen := nofun }
  obtain ⟨hfirst, -⟩ := comesFrom_sweep weights hinit
  -- The second sweep starts with nothing remembered.
  exact comesFrom_sweep weights ⟨hfirst.named, nofun⟩

/-- A table without repetitions is its keys, each with what it is looked up as. -/
theorem ext_get? (hnodup : a.keys.Nodup) (hkeys : a.keys = b.keys)
    (hget : ∀ key, a.get? key = b.get? key) : a = b := by
  have hsymbols {table : SymbolTable} (hnodup : table.keys.Nodup) :
      table.keys.filterMap table.get? = table.symbols := by
    rw [keys, List.filterMap_map]
    exact (List.filterMap_congr fun s hmem => get?_of_mem hnodup hmem).trans
      (List.filterMap_some)
  have hlookups : a.get? = b.get? := funext hget
  have heq : a.symbols = b.symbols := by
    rw [← hsymbols hnodup, ← hsymbols (hkeys ▸ hnodup), hkeys, hlookups]
  cases a
  cases b
  exact congrArg SymbolTable.mk heq

/-- Resolves everything anew. -/
def resolveAll (table : SymbolTable) (weights : Weights) : SymbolTable :=
  (table.invalidateAll.update weights).1

theorem keys_resolveAll (table : SymbolTable) (weights : Weights) :
    (table.resolveAll weights).keys = table.keys :=
  (keys_update table.invalidateAll weights).trans (keys_invalidateAll table)

theorem get?_resolveAll : (table.resolveAll weights).get? key
    = (((table.invalidateAll.sweep weights).table.sweep weights).table.get? key).map
        fun s => { s with needsUpdate := false } :=
  get?_update weights

/-- Taking back a resolution that was made anew leaves a twin of what there was before. -/
theorem twin_resolveAll
    (hdeclared : ∀ {key s}, table.get? key = some s → s.isSystem = true → s.needsUpdate = false)
    (hlength : ∀ {key s}, table.get? key = some s → s.isSystem = false → s.HasLength key.arity)
    (weights : Weights) :
    table.invalidateAll.Twin (table.resolveAll weights).invalidateAll where
  keys := by rw [keys_invalidateAll, keys_invalidateAll, keys_resolveAll]
  symbol {key s t} hs ht := by
    rw [get?_invalidateAll] at ht
    obtain ⟨after, hafter, rfl⟩ := Option.map_eq_some_iff.1 ht
    have hget := hs
    rw [get?_invalidateAll] at hs
    obtain ⟨before, hbefore, rfl⟩ := Option.map_eq_some_iff.1 hs
    cases hsystem : before.isSystem with
    | true =>
      -- A declared symbol is not touched.
      rw [invalidate_of_isSystem hsystem] at hget ⊢
      rw [resolveAll, get?_update_of_unflagged hget (hdeclared hbefore hsystem),
        Option.some.injEq] at hafter
      subst hafter
      rw [invalidate_of_isSystem hsystem]
      exact .refl before
    | false =>
      rw [resolveAll, get?_update] at hafter
      obtain ⟨last, hlast, rfl⟩ := Option.map_eq_some_iff.1 hafter
      obtain ⟨first, hfirst, hevolves⟩ :=
        (table.invalidateAll.evolves_sweeps weights).exists_before hlast
      rw [hget, Option.some.injEq] at hfirst
      subst hfirst
      have hevidence : before.evidence = last.evidence := by
        rw [hevolves.evidence_eq, StorySymbol.evidence_invalidate]
      have hbefore_length : before.invalidate.HasLength key.arity := by
        rw [StorySymbol.invalidate, hsystem]
        exact ⟨(hlength hbefore hsystem).parameters, (hlength hbefore hsystem).definitions⟩
      exact .invalidate hsystem hevidence ((hlength hbefore hsystem).parameters.trans
        (hevolves.hasLength hbefore_length).parameters.symm)

/-- What is flagged once everything was taken back has no verdict. -/
theorem canonical_of_flagged
    (hdeclared : ∀ {key s}, table.get? key = some s → s.isSystem = true → s.needsUpdate = false)
    (hget : table.invalidateAll.get? key = some s) (hflag : s.needsUpdate = true) :
    s.canonical = none := by
  cases hsystem : s.isSystem with
  | false => exact (isFresh_invalidateAll table hget hsystem).2.2
  | true =>
    rw [get?_invalidateAll] at hget
    obtain ⟨before, hbefore, rfl⟩ := Option.map_eq_some_iff.1 hget
    rw [isSystem_invalidate] at hsystem
    rw [invalidate_of_isSystem hsystem, hdeclared hbefore hsystem] at hflag
    cases hflag

/-- **Resolving everything twice is resolving everything once**, in a table whose declared symbols are
settled and whose definitions have as many parameters as their symbols. -/
theorem resolveAll_resolveAll (hnodup : table.keys.Nodup)
    (hdeclared : ∀ {key s}, table.get? key = some s → s.isSystem = true → s.needsUpdate = false)
    (hlength : ∀ {key s}, table.get? key = some s → s.isSystem = false → s.HasLength key.arity)
    (weights : Weights) :
    (table.resolveAll weights).resolveAll weights = table.resolveAll weights := by
  let a := table.invalidateAll
  let b := (table.resolveAll weights).invalidateAll
  have hstart : a.Twin b := twin_resolveAll hdeclared hlength weights
  have ha_nodup : a.keys.Nodup := (keys_invalidateAll table).symm ▸ hnodup
  have hend : ((a.sweep weights).table.sweep weights).table.Twin
      ((b.sweep weights).table.sweep weights).table :=
    (hstart.sweep ha_nodup weights).sweep ((a.evolves_sweep weights).keys.symm ▸ ha_nodup) weights
  obtain ⟨ha, ha_fallen⟩ := comesFrom_sweeps (canonical_of_flagged hdeclared) weights
  have hsettled {key : SymbolKey} {s : StorySymbol} (hget : (table.resolveAll weights).get? key = some s)
      (_ : s.isSystem = true) : s.needsUpdate = false := not_needsUpdate_update hget
  obtain ⟨hb, hb_fallen⟩ := comesFrom_sweeps (canonical_of_flagged hsettled) weights
  refine ext_get? ?_ (keys_resolveAll _ weights) fun key => ?_
  · rw [keys_resolveAll, keys_resolveAll]
    exact hnodup
  cases ht : ((a.sweep weights).table.sweep weights).table.get? key with
  | none =>
    rw [get?_resolveAll, get?_resolveAll, ht, hend.get?_eq_none_iff.1 ht]
  | some t =>
    obtain ⟨t', ht', htwin⟩ := hend.exists_twin ht
    obtain ⟨s, hs, hevolves⟩ := (a.evolves_sweeps weights).exists_before ht
    obtain ⟨s', hs', hst⟩ := hstart.exists_twin hs
    have honce : (table.resolveAll weights).get? key = some { t with needsUpdate := false } := by
      rw [get?_resolveAll, ht, Option.map_some]
    have hs'_eq : { t with needsUpdate := false }.invalidate = s' := by
      rwa [get?_invalidateAll, honce, Option.map_some, Option.some.injEq] at hs'
    cases hflag : s.needsUpdate with
    | false =>
      -- Only declared symbols are settled at the start, and nothing touches them.
      have hsystem : s.isSystem = true := by
        by_contra hsystem
        have hfresh := (isFresh_invalidateAll table hs (by simpa using hsystem)).2.1
        exact absurd hfresh (by simp [hflag])
      have hsame : (table.resolveAll weights).get? key = some s := get?_update_of_unflagged hs hflag
      rw [honce, Option.some.injEq] at hsame
      rw [hsame, invalidate_of_isSystem hsystem] at hs'_eq
      subst hs'_eq
      rw [honce, hsame]
      exact get?_update_of_unflagged hs' hflag
    | true =>
      have hnames : s'.parameterNames = t.parameterNames := by
        rw [← hs'_eq, StorySymbol.parameterNames_invalidate]
        rfl
      rw [honce, get?_resolveAll, ht', Option.map_some, Option.some.injEq]
      exact (htwin.settle_eq ((ha.named hs hflag ht).parameterNames_eq
        (hb.named hs' (hst.flag ▸ hflag) ht') htwin hnames) (ha_fallen ht) (hb_fallen ht')).symm

end SymbolTable

end StoryCheck
