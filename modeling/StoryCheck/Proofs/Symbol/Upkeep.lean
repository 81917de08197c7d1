import StoryCheck.Proofs.Symbol.Alike

/-!
# Keeping a table up to date

A story does not resolve its symbols anew after every edit. The edit flags the symbols that it
touches and all that take types from them, and the next update looks at those only. For symbols
that settle this is as good as resolving everything: what is not flagged takes types only from
symbols that are not flagged either, and all of these are what they were before the edit.

## The architecture

* **`IsFresh`** — nothing has a verdict yet. An update of a fresh table brings every symbol that
  settles to its judgement (`Holds.shows_update`).
* **`Shown`** — every symbol has come to what settlings judge. It is the invariant of a table that
  is kept up to date.
* **`Continues`** — a table goes on from an earlier one: what is not flagged is as it was and refers
  to nothing that is flagged. Entering goals, taking them out and pruning all go on
  (`Continues.addGoal`, `Continues.removeGoal`, `Continues.prune`).
* **`Continues.shown_update`** — an update after edits keeps the invariant.
-/

namespace StoryCheck

open Syntax

namespace SymbolTable

variable {table header : SymbolTable} {types : TypeRegistry} {trees : Trees} {key : SymbolKey}
  {s t : StorySymbol} {weights : Weights}

/-! ## Fresh tables

In a fresh table there is no verdict yet that could be out of date. -/

/-- What nobody declared waits for a first resolution. -/
def IsFresh (table : SymbolTable) : Prop :=
  ∀ {key s}, table.get? key = some s → s.isSystem = false →
    s.isDead = false ∧ s.needsUpdate = true ∧ s.canonical = none

/-- In a header nothing waits. -/
theorem IsDeclared.isFresh (h : header.IsDeclared) : header.IsFresh := by
  intro key s hget hinferred
  exact absurd (h hget).1 (by simp [hinferred])

/-- A table in which nothing has a verdict yet is in order. -/
theorem Holds.orderly (h : table.Holds header types trees) (hheader : header.IsDeclared)
    (hfresh : table.IsFresh) : table.Orderly where
  declared hget hsystem := h.declared_before hheader hget hsystem
  flagged {key s} hget hflag := by
    have hsystem : s.isSystem = false := by
      by_contra hsystem
      have hsettled := (h.declared_before hheader hget (by simpa using hsystem)).2
      exact absurd hflag (by simp [hsettled])
    obtain ⟨hdead, -, hcanonical⟩ := hfresh hget hsystem
    exact ⟨hdead, hcanonical⟩

/-- The first update brings every symbol to its judgement. -/
theorem Holds.shows_update (h : table.Holds header types trees) (hheader : header.IsDeclared)
    (hfresh : table.IsFresh) (S : table.Settling weights) (hcovers : S.covers key)
    (hget : (table.update weights).1.get? key = some s) : s.Shows (S.view key) := by
  refine SymbolTable.shows_update (h.orderly hheader hfresh) S (fun key s hcovers hget hsettled => ?_)
    hcovers hget
  have hsystem : s.isSystem = true := by
    by_contra hsystem
    have hflag := (hfresh hget (by simpa using hsystem)).2.1
    exact absurd hflag (by simp [hsettled])
  rw [S.declared hcovers hget hsystem]
  have hdead := (h.declared_before hheader hget hsystem).1
  exact ⟨by simp [StorySymbol.resolution, hdead, hsystem], rfl⟩

/-- Taking back every resolution makes a fresh table. -/
theorem isFresh_invalidateAll (table : SymbolTable) : table.invalidateAll.IsFresh := by
  intro key t hget hsystem
  rw [get?_invalidateAll] at hget
  obtain ⟨s, hs, rfl⟩ := Option.map_eq_some_iff.1 hget
  rw [isSystem_invalidate] at hsystem
  simp [StorySymbol.invalidate, hsystem]

/-! ## Tables in which everything has come to its judgement

What settles shows its judgement. This is what remains of a resolution when its history is
forgotten. -/

/-- Every symbol has come to what settlings judge. -/
def Shown (table : SymbolTable) (weights : Weights) : Prop :=
  ∀ (S : table.Settling weights) {key s}, S.covers key → table.get? key = some s →
    s.Shows (S.view key)

/-- Tables that hold the same goals and differ in nothing but resolution are alike, whatever the
weights. -/
theorem Holds.alike_of_evidence {a b : SymbolTable} (ha : a.Holds header types trees)
    (hb : b.Holds header types trees) (hheader : header.IsDeclared) (hkeys : b.keys = a.keys)
    (hevidence : ∀ {key s t}, a.get? key = some s → b.get? key = some t →
      t.evidence = s.evidence) (weights : Weights) : a.Alike weights b where
  isSome_eq key := by
    rw [Bool.eq_iff_iff, get?_isSome_iff, get?_isSome_iff, hkeys]
  -- Definitions and usages are evidence; verdicts of declared symbols are those of the header.
  symbol {key s t} hs ht := by
    have heq := hevidence hs ht
    have hsystem := StorySymbol.isSystem_eq_of_evidence heq
    refine ⟨(StorySymbol.key_eq_of_evidence heq).symm, hsystem.symm, ?_, fun hdeclared => ?_,
      fun hinferred => ⟨fun name => ?_, ?_, ?_⟩⟩
    · show s.evidence.kind = t.evidence.kind
      rw [heq]
    · cases hget : header.get? key with
      | none => exact absurd hdeclared (by simp [(ha.gathers hget hs).inferred])
      | some u =>
        obtain ⟨s', hs', -, hs_verdict⟩ := ha.declared hget
        obtain ⟨t', ht', -, ht_verdict⟩ := hb.declared hget
        rw [hs, Option.some.injEq] at hs'
        rw [ht, Option.some.injEq] at ht'
        rw [hs', ht', hs_verdict, ht_verdict]
    · rw [StorySymbol.definitions_eq_of_evidence heq]
    · rw [StorySymbol.ranked, StorySymbol.ranked, StorySymbol.candidates_eq_of_evidence heq]
    · have hundeclared : header.get? key = none := by
        by_contra hsome
        obtain ⟨u, hu⟩ := Option.ne_none_iff_exists'.1 hsome
        obtain ⟨s', hs', hdeclared, -⟩ := ha.exists_declared hheader hu
        rw [hs, Option.some.injEq] at hs'
        exact absurd hdeclared (by simp [← hs', hinferred])
      rw [(ha.gathers hundeclared hs).length, (hb.gathers hundeclared ht).length]

/-- An update changes nothing that settlings look at. -/
theorem Holds.alike_update (h : table.Holds header types trees) (hheader : header.IsDeclared)
    (weights weights' : Weights) : table.Alike weights (table.update weights').1 := by
  have hevolves := table.evolves_sweeps weights'
  refine h.alike_of_evidence (h.update hheader weights') hheader ?_ (fun hs ht => ?_) weights
  · exact (keys_map (f := fun s => { s with needsUpdate := false }) fun _ => rfl).trans hevolves.keys
  · rw [get?_update] at ht
    obtain ⟨u, hu, rfl⟩ := Option.map_eq_some_iff.1 ht
    obtain ⟨s', hs', hsu⟩ := hevolves.exists_before hu
    rw [hs, Option.some.injEq] at hs'
    rw [hs']
    exact hsu.evidence_eq

/-- **Resolving everything anew brings every symbol to its judgement.** -/
theorem Holds.shown_invalidateAll (h : table.Holds header types trees) (hheader : header.IsDeclared)
    (weights : Weights) : (table.invalidateAll.update weights).1.Shown weights := by
  intro S key s hcovers hget
  have hholds := h.invalidateAll hheader
  have halike := (hholds.alike_update hheader weights weights).symm
  exact hholds.shows_update hheader table.isFresh_invalidateAll (halike.settling S) hcovers hget

/-! ## Going on from an earlier table

What is settled before an edit and not flagged by it may stay: it is as it was, and so is all that it
refers to. In the midst of an edit this need not hold of the symbols whose definitions just changed;
these are flagged at the end of it. -/

/-- A table goes on from an earlier one, but for some symbols. -/
structure Continues (before after : SymbolTable) (changed : List SymbolKey) : Prop where
  /-- What is not flagged is as it was. -/
  kept : ∀ {key t}, after.get? key = some t → t.needsUpdate = false →
    (t.isSystem = false → key ∉ changed) →
    ∃ s, before.get? key = some s ∧ t.verdict = s.verdict
      ∧ (t.isSystem = false → t.definitions = s.definitions)
  /-- What is flagged has no verdict. -/
  unsettled : ∀ {key t}, after.get? key = some t → t.needsUpdate = true →
    t.isDead = false ∧ t.canonical = none
  /-- What is not flagged refers to nothing that is. -/
  closed : ∀ {key other t u d}, after.get? key = some t → t.isSystem = false →
    t.needsUpdate = false → key ∉ changed → d ∈ t.definitions → other ∈ d.references →
    after.get? other = some u → u.needsUpdate = false

/-- A table without flags goes on from itself. -/
theorem Continues.refl (hsettled : ∀ {key s}, table.get? key = some s → s.needsUpdate = false) :
    table.Continues table [] where
  kept hget _ _ := ⟨_, hget, rfl, fun _ => rfl⟩
  unsettled hget hflag := absurd hflag (by simp [hsettled hget])
  closed _ _ _ _ _ _ hother := hsettled hother

/-- What a definition refers to is in the table: the goal that has the definition calls it too. -/
theorem Holds.isSome_reference (h : table.Holds header types trees) (hheader : header.IsDeclared)
    (hget : table.get? key = some s) (hinferred : s.isSystem = false) {d : SymbolDefinition}
    (hd : d ∈ s.definitions) {other : SymbolKey} (hother : other ∈ d.references) :
    (table.get? other).isSome := by
  cases hdeclared : header.get? key with
  | some u =>
    obtain ⟨s', hs', hsystem, -⟩ := h.exists_declared hheader hdeclared
    rw [hget, Option.some.injEq] at hs'
    exact absurd hsystem (by simp [← hs', hinferred])
  | none =>
    obtain ⟨tree, htree, site, hsite, -, hparameters⟩ := (h.gathers hdeclared hget).exists_site hd
    obtain ⟨p, hp, ref, href, rfl⟩ := SymbolDefinition.mem_references.1 hother
    rw [hparameters] at hp
    exact h.present ⟨tree, htree, CallSite.reference_mem_calls hsite hp href⟩

/-! ### The end of an edit

Taking back reaches along references to all symbols that depend on a changed one. What is left has
no way to a changed symbol. -/

/-- Once the symbols that changed are taken back with all that depend on them, nothing is excepted. -/
theorem Continues.invalidateFrom {before mid : SymbolTable} {changed : List SymbolKey}
    (h : before.Continues mid changed) :
    before.Continues ((mid.refresh changed).invalidateFrom changed) [] := by
  let reached := (mid.refresh changed).dependentsOf changed
  have hlookup {key : SymbolKey} {t : StorySymbol}
      (hget : ((mid.refresh changed).invalidateFrom changed).get? key = some t) :
      ∃ v, mid.get? key = some v
        ∧ v.revised (decide (key ∈ changed)) (decide (key ∈ reached)) = t := by
    rw [get?_revised] at hget
    exact Option.map_eq_some_iff.1 hget
  have hchanged : changed ⊆ reached := (closed_dependentsOf _ changed).2
  -- A symbol without flag is not reached, so nothing was written to it.
  have hunreached {key : SymbolKey} {v : StorySymbol}
      (hinferred : v.isSystem = false)
      (hsettled : (v.revised (decide (key ∈ changed)) (decide (key ∈ reached))).needsUpdate = false) :
      key ∉ reached ∧ v.revised (decide (key ∈ changed)) (decide (key ∈ reached)) = v := by
    have hreached : key ∉ reached := by
      intro hmem
      rw [StorySymbol.revised_eq hinferred, decide_eq_true hmem] at hsettled
      cases hsettled
    have huntouched : key ∉ changed := fun hmem => hreached (hchanged hmem)
    refine ⟨hreached, ?_⟩
    rw [decide_eq_false hreached, decide_eq_false huntouched]
    rfl
  refine ⟨fun {key t} hget hsettled _ => ?_, fun {key t} hget hflag => ?_,
    fun {key other t u d} hget hinferred hsettled _ hd hother hu => ?_⟩
  · obtain ⟨v, hv, rfl⟩ := hlookup hget
    cases hsystem : v.isSystem with
    | true =>
      rw [StorySymbol.revised_of_isSystem hsystem] at hsettled ⊢
      exact h.kept hv hsettled fun hinferred => absurd hsystem (by simp [hinferred])
    | false =>
      obtain ⟨hreached, heq⟩ := hunreached hsystem hsettled
      rw [heq] at hsettled ⊢
      exact h.kept hv hsettled fun _ hmem => hreached (hchanged hmem)
  · obtain ⟨v, hv, rfl⟩ := hlookup hget
    cases hsystem : v.isSystem with
    | true =>
      rw [StorySymbol.revised_of_isSystem hsystem] at hflag ⊢
      exact h.unsettled hv hflag
    | false =>
      rw [StorySymbol.revised_eq hsystem] at hflag ⊢
      by_cases hreached : key ∈ reached
      · simp [hreached]
      · rw [decide_eq_false hreached] at hflag ⊢
        have hunsettled := h.unsettled hv hflag
        exact hunsettled
  · obtain ⟨v, hv, rfl⟩ := hlookup hget
    rw [StorySymbol.isSystem_revised] at hinferred
    obtain ⟨hreached, heq⟩ := hunreached hinferred hsettled
    rw [heq] at hsettled hd
    obtain ⟨w, hw, rfl⟩ := hlookup hu
    have hw_settled : w.needsUpdate = false :=
      h.closed hv hinferred hsettled (fun hmem => hreached (hchanged hmem)) hd hother hw
    cases hsystem : w.isSystem with
    | true => rwa [StorySymbol.revised_of_isSystem hsystem]
    | false =>
      have hother_unreached : other ∉ reached := by
        intro hmem
        have hrefreshed : (mid.refresh changed).get? key = some v := by
          rw [get?_refresh, hv, Option.map_some, if_neg fun hmem => hreached (hchanged hmem)]
        exact hreached (dependentsOf_closed hrefreshed hd hother hmem)
      rw [StorySymbol.revised_eq hsystem, decide_eq_false hother_unreached]
      exact hw_settled

/-! ### Edits

Each edit leads from a table that goes on from an earlier one to another that does. -/

/-- Entering call sites changes the symbols that they define. -/
theorem Continues.filled {before : SymbolTable} (h : before.Continues table [])
    (hholds : table.Holds header types trees) (hheader : header.IsDeclared) (goal : String)
    (sites : List CallSite) :
    before.Continues (table.filled goal sites) (table.definedKeys sites) := by
  have hlookup {key : SymbolKey} {v : StorySymbol}
      (hv : (table.filled goal sites).get? key = some v) (hsettled : v.needsUpdate = false) :
      ∃ s, table.get? key = some s ∧ s.Extends v
        ∧ (v.isSystem = false → key ∉ table.definedKeys sites → v.definitions = s.definitions) := by
    obtain rfl := eq_gather_of_filled hv
    have hextends := extends_gather goal (sitesOf sites key) ((table.get? key).getD (.ofKey key))
    cases hget : table.get? key with
    | none =>
      -- A new symbol is flagged.
      rw [hget] at hextends
      rw [hget, hextends.needsUpdate] at hsettled
      cases hsettled
    | some s =>
      rw [hget] at hextends
      refine ⟨s, rfl, hextends, fun hinferred hkey => ?_⟩
      have hs_inferred : s.isSystem = false := hextends.isSystem.symm.trans hinferred
      have hcontributed : contributed goal sites key = [] := by
        by_contra hne
        refine hkey ((mem_definedKeys goal sites fun s' hs' => ?_).2 hne)
        rw [hget, Option.some.injEq] at hs'
        exact hs' ▸ hs_inferred
      show (gather goal (sitesOf sites key) s).definitions = s.definitions
      rw [definitions_gather goal _ hs_inferred]
      exact (congrArg _ hcontributed).trans (List.append_nil _)
  refine ⟨fun {key v} hv hsettled hkey => ?_, fun {key v} hv hflag => ?_,
    fun {key other v w d} hv hinferred hsettled hkey hd hother hw => ?_⟩
  · obtain ⟨s, hs, hextends, hdefinitions⟩ := hlookup hv hsettled
    obtain ⟨s₀, hs₀, hverdict, hs_definitions⟩ :=
      h.kept hs (hextends.needsUpdate.symm.trans hsettled) fun _ => List.not_mem_nil
    refine ⟨s₀, hs₀, hextends.verdict.trans hverdict, fun hinferred => ?_⟩
    rw [hdefinitions hinferred (hkey hinferred)]
    exact hs_definitions (hextends.isSystem.symm.trans hinferred)
  · obtain rfl := eq_gather_of_filled hv
    have hextends := extends_gather goal (sitesOf sites key) ((table.get? key).getD (.ofKey key))
    rw [hextends.isDead, hextends.canonical]
    rw [hextends.needsUpdate] at hflag
    cases hget : table.get? key with
    | none => exact ⟨rfl, rfl⟩
    | some s =>
      rw [hget] at hflag
      exact h.unsettled hget hflag
  · obtain ⟨s, hs, hextends, hdefinitions⟩ := hlookup hv hsettled
    have hs_inferred : s.isSystem = false := hextends.isSystem.symm.trans hinferred
    rw [hdefinitions hinferred hkey] at hd
    -- What the symbol refers to was there before, so it is not flagged for being new.
    obtain ⟨u, hu⟩ := Option.isSome_iff_exists.1
      (hholds.isSome_reference hheader hs hs_inferred hd hother)
    have hu_settled : u.needsUpdate = false :=
      h.closed hs hs_inferred (hextends.needsUpdate.symm.trans hsettled) List.not_mem_nil hd hother hu
    obtain rfl := eq_gather_of_filled hw
    rw [hu, (extends_gather goal (sitesOf sites other) _).needsUpdate]
    exact hu_settled

/-- **A table to which a goal was added goes on from the same table.** -/
theorem Continues.addGoal {before : SymbolTable} (h : before.Continues table [])
    (hholds : table.Holds header types trees) (hheader : header.IsDeclared) (goal : String)
    (tree : Goal) : before.Continues (table.addGoal goal types tree).1 [] :=
  (h.filled hholds hheader goal _).invalidateFrom

/-- **A table from which a goal was taken goes on from the same table.** -/
theorem Continues.removeGoal {before : SymbolTable} (h : before.Continues table []) (goal : String) :
    before.Continues (table.removeGoal goal) [] := by
  rw [removeGoal_eq]
  refine Continues.invalidateFrom ⟨fun {key v} hv hsettled hkey => ?_, fun {key v} hv hflag => ?_,
    fun {key other v w d} hv hinferred hsettled hkey hd hother hw => ?_⟩
  all_goals
    rw [get?_map (f := strip goal) fun _ => rfl] at hv
    obtain ⟨s, hs, rfl⟩ := Option.map_eq_some_iff.1 hv
  · obtain ⟨s₀, hs₀, hverdict, hdefinitions⟩ := h.kept hs hsettled fun _ => List.not_mem_nil
    refine ⟨s₀, hs₀, hverdict, fun hinferred => ?_⟩
    rw [definitions_strip hs (hkey hinferred)]
    exact hdefinitions hinferred
  · have hunsettled := h.unsettled hs hflag
    exact hunsettled
  · rw [get?_map (f := strip goal) fun _ => rfl] at hw
    obtain ⟨u, hu, rfl⟩ := Option.map_eq_some_iff.1 hw
    rw [definitions_strip hs hkey] at hd
    have hu_settled := h.closed hs hinferred hsettled List.not_mem_nil hd hother hu
    exact hu_settled

theorem Continues.prune {before : SymbolTable} (h : before.Continues table [])
    (hnodup : table.keys.Nodup) : before.Continues table.prune [] := by
  have hlookup {key : SymbolKey} {t : StorySymbol} (hget : table.prune.get? key = some t) :
      table.get? key = some t := by
    rw [get?_prune hnodup] at hget
    exact (Option.filter_eq_some_iff.1 hget).1
  exact ⟨fun hget => h.kept (hlookup hget), fun hget => h.unsettled (hlookup hget),
    fun hget hinferred hsettled hkey hd hother hu =>
      h.closed (hlookup hget) hinferred hsettled hkey hd hother (hlookup hu)⟩

/-! ## Updates after edits

A settling of the later table is cut down to the symbols that were left alone. These form a settling
of the earlier table, where they have come to their judgement already. The update brings the others
to theirs. -/

end SymbolTable

theorem View.mem_of_examined {view : View} {candidates : List SymbolDefinition} {d : SymbolDefinition}
    (hd : d ∈ view.examined candidates) : d ∈ candidates := by
  induction candidates with
  | nil => cases hd
  | cons first rest ih =>
    unfold View.examined at hd
    split at hd
    · exact List.mem_cons_of_mem _ (ih hd)
    · split at hd
      · rw [List.mem_singleton.1 hd]
        exact List.mem_cons_self
      · rcases List.mem_cons.1 hd with rfl | hd
        · exact List.mem_cons_self
        · exact List.mem_cons_of_mem _ (ih hd)

namespace StorySymbol

theorem mem_definitions_of_ranked {s : StorySymbol} {weights : Weights} {d : SymbolDefinition}
    (hd : d ∈ s.ranked weights) : d ∈ s.definitions := by
  obtain ⟨⟨index, d⟩, hcandidate, rfl⟩ := List.mem_map.1 hd
  exact List.mem_of_getElem? (mem_candidates.1 hcandidate).1

/-- Whether a symbol has come to a judgement shows in its verdict and its definitions. -/
theorem Shows.of_verdict {s t : StorySymbol} {j : Judgement} (h : s.Shows j)
    (hverdict : t.verdict = s.verdict) (hdefinitions : t.definitions = s.definitions) : t.Shows j := by
  -- Adopting and falling back write on fields of the verdict only, which the two have in common.
  obtain ⟨key, kind, system, dead, flag, parameters, definitions, usages, reads, writes, canonical⟩ := s
  obtain ⟨⟩ := t
  simp only [verdict, StorySymbol.mk.injEq] at hverdict
  obtain ⟨rfl, -, rfl, rfl, rfl, rfl, -, -, -, -, rfl⟩ := hverdict
  obtain rfl : definitions = _ := hdefinitions.symm
  cases j with
  | declared types => exact h
  | adopts d types =>
    obtain ⟨index, hd, hadopt⟩ := h
    refine ⟨index, hd, ?_⟩
    simp only [adopt, StorySymbol.mk.injEq, true_and] at hadopt ⊢
    exact hadopt
  | pending | dead =>
    refine ⟨h.1, ?_⟩
    have hfallBack := h.2
    simp only [fallBack, StorySymbol.mk.injEq, true_and] at hfallBack ⊢
    exact hfallBack

end StorySymbol

namespace SymbolTable

variable {table header before after : SymbolTable} {types : TypeRegistry} {trees : Trees}
  {key other : SymbolKey} {s t : StorySymbol} {weights : Weights}

/-- A symbol of the later table that an edit left alone. -/
def IsLeft (after : SymbolTable) (key : SymbolKey) : Prop :=
  ∃ t, after.get? key = some t ∧ t.needsUpdate = false

/-- A symbol that was left alone, as it was before. -/
theorem Continues.left_before (h : before.Continues after []) (hleft : after.IsLeft key) :
    ∃ s t, before.get? key = some s ∧ after.get? key = some t ∧ t.verdict = s.verdict
      ∧ (t.isSystem = false → t.definitions = s.definitions) := by
  obtain ⟨t, ht, hsettled⟩ := hleft
  obtain ⟨s, hs, hverdict, hdefinitions⟩ := h.kept ht hsettled fun _ => List.not_mem_nil
  exact ⟨s, t, hs, ht, hverdict, hdefinitions⟩

/-- An inferred symbol that was left alone has the same candidates in the same order. -/
theorem Continues.inferred_left (h : before.Continues after []) (hleft : after.IsLeft key)
    (hget : before.get? key = some s) (hinferred : s.isSystem = false) (weights : Weights) :
    ∃ t, after.get? key = some t ∧ t.isSystem = false ∧ t.isDatabase = s.isDatabase
      ∧ t.ranked weights = s.ranked weights := by
  obtain ⟨s', t, hs', ht, hverdict, hdefinitions⟩ := h.left_before hleft
  obtain rfl : s = s' := Option.some.inj (hget.symm.trans hs')
  have ht_inferred := (StorySymbol.isSystem_eq_of_verdict hverdict).trans hinferred
  have hdatabase : t.isDatabase = s.isDatabase :=
    isDatabase_eq_of_key (StorySymbol.key_eq_of_verdict hverdict)
  refine ⟨t, ht, ht_inferred, hdatabase, ?_⟩
  rw [StorySymbol.ranked_eq, StorySymbol.ranked_eq, hdatabase, hdefinitions ht_inferred]

/-- What an edit left alone needed nothing but what it left alone. -/
theorem Continues.needs_left (h : before.Continues after []) (hholds : after.Holds header types trees)
    (hheader : header.IsDeclared) {view : View} (hleft : after.IsLeft key)
    (hneeds : before.Needs weights view key other) :
    after.IsLeft other ∧ after.Needs weights view key other := by
  obtain ⟨s, hs, hs_inferred, d, hd, hother⟩ := hneeds
  obtain ⟨t, ht, ht_inferred, -, hranked⟩ := h.inferred_left hleft hs hs_inferred weights
  rw [← hranked] at hd
  have hd_mem : d ∈ t.definitions := StorySymbol.mem_definitions_of_ranked (View.mem_of_examined hd)
  obtain ⟨u, hu⟩ := Option.isSome_iff_exists.1
    (hholds.isSome_reference hheader ht ht_inferred hd_mem hother)
  obtain ⟨t', ht', hsettled⟩ := hleft
  obtain rfl : t' = t := Option.some.inj (ht'.symm.trans ht)
  exact ⟨⟨u, hu, h.closed ht ht_inferred hsettled List.not_mem_nil hd_mem hother hu⟩,
    t', ht, ht_inferred, d, hd, hother⟩

/-- A settling of the later table, cut down to what the edit left alone, is one of the earlier. -/
def Continues.settling (h : before.Continues after []) (hholds : after.Holds header types trees)
    (hheader : header.IsDeclared) (S : after.Settling weights) : before.Settling weights where
  -- What a symbol that was left alone needs has been left alone as well, so that ways of needs stay
  -- among such symbols.
  covers key := S.covers key ∧ after.IsLeft key
  view := S.view
  rank := S.rank
  absent hcovers hnone := by
    obtain ⟨s, -, hs, -⟩ := h.left_before hcovers.2
    cases hnone.symm.trans hs
  declared {key s'} hcovers hs' hsystem := by
    obtain ⟨s, t, hs, ht, hverdict, -⟩ := h.left_before hcovers.2
    obtain rfl : s' = s := Option.some.inj (hs'.symm.trans hs)
    have hsystem_after : t.verdict.isSystem = true := by
      rw [hverdict]
      exact hsystem
    rw [S.declared hcovers.1 ht hsystem_after]
    show Judgement.declared (t.verdict.parameters.map _) = _
    rw [hverdict]
    rfl
  judged hcovers hs hinferred := by
    obtain ⟨t, ht, ht_inferred, hdatabase, hranked⟩ :=
      h.inferred_left hcovers.2 hs hinferred weights
    rw [S.judged hcovers.1 ht ht_inferred, hdatabase, hranked]
  grounded hcovers hs hinferred hpending := by
    obtain ⟨t, ht, ht_inferred, hdatabase, hranked⟩ :=
      h.inferred_left hcovers.2 hs hinferred weights
    rw [← hdatabase, ← hranked]
    exact S.grounded hcovers.1 ht ht_inferred hpending
  closed hcovers hneeds := by
    obtain ⟨hleft, hneeds_after⟩ := h.needs_left hholds hheader hcovers.2 hneeds
    exact ⟨S.closed hcovers.1 hneeds_after, hleft⟩
  acyclic {key other} hcovers htyped hne hneeds hback := by
    have hlift {a b : SymbolKey} (ha : after.IsLeft a)
        (hab : Relation.TransGen (before.Needs weights S.view) a b) :
        after.IsLeft b ∧ Relation.TransGen (after.Needs weights S.view) a b := by
      induction hab with
      | single hneeds =>
        obtain ⟨hleft, hneeds_after⟩ := h.needs_left hholds hheader ha hneeds
        exact ⟨hleft, .single hneeds_after⟩
      | tail _ hneeds ih =>
        obtain ⟨hleft, hneeds_after⟩ := h.needs_left hholds hheader ih.1 hneeds
        exact ⟨hleft, ih.2.tail hneeds_after⟩
    obtain ⟨hother, hneeds_after⟩ := hlift hcovers.2 hneeds
    exact S.acyclic hcovers.1 htyped hne hneeds_after (hlift hother hback).2

/-- What an edit left alone shows its judgement in the later table. -/
theorem Continues.shows (h : before.Continues after []) (hholds : after.Holds header types trees)
    (hheader : header.IsDeclared) (hshown : before.Shown weights) (S : after.Settling weights)
    (hcovers : S.covers key) (ht : after.get? key = some t) (hsettled : t.needsUpdate = false) :
    t.Shows (S.view key) := by
  have hleft : after.IsLeft key := ⟨t, ht, hsettled⟩
  obtain ⟨s, t', hs, ht', hverdict, hdefinitions⟩ := h.left_before hleft
  obtain rfl : t = t' := Option.some.inj (ht.symm.trans ht')
  have hshows : s.Shows (S.view key) := hshown (h.settling hholds hheader S) ⟨hcovers, hleft⟩ hs
  cases hsystem : t.isSystem with
  | false => exact hshows.of_verdict hverdict (hdefinitions hsystem)
  | true =>
    rw [S.declared hcovers ht hsystem] at hshows ⊢
    exact ⟨(StorySymbol.resolution_eq_of_verdict hverdict).trans hshows.1, rfl⟩

/-- **An update after edits brings every symbol to its judgement**, though it looks at flagged ones
only. -/
theorem Continues.shown_update (h : before.Continues after [])
    (hholds : after.Holds header types trees) (hheader : header.IsDeclared)
    (hshown : before.Shown weights) : (after.update weights).1.Shown weights := by
  intro S key t hcovers ht
  have horderly : after.Orderly :=
    ⟨fun hget hsystem => hholds.declared_before hheader hget hsystem, h.unsettled⟩
  have halike := (hholds.alike_update hheader weights weights).symm
  exact SymbolTable.shows_update horderly (halike.settling S)
    (fun _ _ hcovers hget hsettled =>
      h.shows hholds hheader hshown (halike.settling S) hcovers hget hsettled) hcovers ht

end SymbolTable

end StoryCheck
