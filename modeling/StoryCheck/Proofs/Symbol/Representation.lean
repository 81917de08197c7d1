import StoryCheck.Proofs.Symbol.JustifiedRuns
import StoryCheck.Proofs.Symbol.Usages

/-!
# What every table satisfies

A table starts with the declarations of a header. Goals are entered and taken out, symbols that
nothing refers to are dropped, and resolutions are taken back and made again, in any order and any
number of times. Definitions refer to other symbols by name all the while. This module shows that no
such reference ever leads nowhere, and that the parts of a symbol go on fitting together.

## The architecture

* **`exists_declaration`** — the symbols of a header, each with the declaration that it comes from.
* **`IsKept`** — the invariant. A symbol from which a definition takes a type stays in the table
  because the goal of the definition uses it, so the invariant says that it does.
* **`IsKept.addGoal`**, **`IsKept.removeGoal`**, **`IsKept.prune`**, **`IsKept.rewrite`** — one lemma for
  each kind of step.
* **`isWellFormed_run`** — what holds in every state that steps lead to.
-/

namespace StoryCheck

open Syntax

/-! ## Headers

A header declares symbols one after the other. A later declaration of the same symbol takes the
place of the earlier one. -/

namespace SymbolTable

variable {table header : SymbolTable} {types : TypeRegistry} {key : SymbolKey} {s t u : StorySymbol}
  {goal : String} {tree : Goal}

/-- **A symbol of a header is what one declaration makes of it.** An earlier declaration of the same
symbol leaves nothing behind. -/
theorem exists_declaration {declarations : List Declaration}
    (hget : (declareAll {} goal types declarations).get? key = some s) :
    ∃ declaration ∈ declarations, declaration.key = key
      ∧ s = declared goal types declaration (.ofKey key) := by
  -- The table has been made by the declarations done so far; the last one of a key is the one that
  -- counts.
  suffices h : ∀ (rest done : List Declaration) (table : SymbolTable),
      (∀ {key s}, table.get? key = some s → ∃ declaration ∈ done, declaration.key = key
        ∧ s = declared goal types declaration (.ofKey key)) →
      ∀ {key s}, (table.declareAll goal types rest).get? key = some s →
        ∃ declaration ∈ done ++ rest, declaration.key = key
          ∧ s = declared goal types declaration (.ofKey key) from
    h declarations [] {} nofun hget
  clear hget
  intro rest
  induction rest with
  | nil =>
    intro done table htable key s hget
    rw [List.append_nil]
    exact htable hget
  | cons declaration rest ih =>
    intro done table htable key s hget
    rw [List.append_cons]
    refine ih (done ++ [declaration]) _ (fun {key s} hget => ?_) hget
    rw [get?_declare] at hget
    split at hget
    · next heq =>
      refine ⟨declaration, by simp, heq.symm, ?_⟩
      rw [← heq, Option.some.injEq] at hget
      rw [← hget]
      cases hbefore : table.get? key with
      | none => rfl
      | some before =>
        obtain ⟨earlier, -, -, rfl⟩ := htable hbefore
        simp [declared]
    · obtain ⟨earlier, hmem, hkey, hs⟩ := htable hget
      exact ⟨earlier, List.mem_append_left _ hmem, hkey, hs⟩

/-- The symbols of a table are those that the declarations of a header goal make. -/
structure IsInstalled (header : SymbolTable) (goal : String) : Prop where
  nodup : header.keys.Nodup
  settled : ∀ {key s}, header.get? key = some s →
    s.isSystem = true ∧ s.isDead = false ∧ s.needsUpdate = false
  length : ∀ {key s}, header.get? key = some s → s.HasLength key.arity
  /-- There is one definition, the declaration. It takes no types and is the one that is adopted. -/
  single : ∀ {key s}, header.get? key = some s → ∃ d, s.definitions = [d] ∧ d.goal = goal
    ∧ d.access = .declaration ∧ d.references = [] ∧ s.canonical = some 0

theorem isInstalled_declareAll (goal : String) (types : TypeRegistry)
    (declarations : List Declaration) :
    (declareAll {} goal types declarations).IsInstalled goal where
  nodup := (declareAll_spec goal types declarations).1
  settled hget := by
    obtain ⟨declaration, -, -, rfl⟩ := exists_declaration hget
    exact ⟨rfl, rfl, rfl⟩
  length hget := by
    obtain ⟨declaration, -, rfl, rfl⟩ := exists_declaration hget
    constructor
    · simp [declared, declaredParameters, Declaration.arity]
    · intro d hd
      rw [List.mem_singleton.1 hd]
      simp [declaredParameters, Declaration.arity]
  single hget := by
    obtain ⟨declaration, -, -, rfl⟩ := exists_declaration hget
    exact ⟨_, rfl, rfl, rfl, by simp [SymbolDefinition.references], rfl⟩

end SymbolTable

/-! ## The invariant

More is kept from step to step than is wanted in the end, namely where a definition takes its types
from and what holds that symbol in the table. -/

namespace StorySymbol

variable {s t : StorySymbol}

/-- The symbol without the record of the goals that use it. -/
def unused (s : StorySymbol) : StorySymbol := { s with usages := [], reads := [], writes := [] }

theorem unused_eq (hverdict : t.verdict = s.verdict) (hkind : t.kind = s.kind)
    (hdefinitions : t.definitions = s.definitions) : t.unused = s.unused := by
  have hunused (u : StorySymbol) :
      u.unused = { u.verdict with kind := u.kind, definitions := u.definitions } := rfl
  rw [hunused, hunused, hverdict, hkind, hdefinitions]

theorem isSystem_of_unused (h : t.unused = s.unused) : t.isSystem = s.isSystem := by
  show t.unused.isSystem = s.unused.isSystem
  rw [h]

theorem definitions_of_unused (h : t.unused = s.unused) : t.definitions = s.definitions := by
  show t.unused.definitions = s.unused.definitions
  rw [h]

theorem settled_of_unused (h : t.unused = s.unused) (hdead : s.isDead = false)
    (hsettled : s.needsUpdate = false) : t.isDead = false ∧ t.needsUpdate = false :=
  ⟨(congrArg isDead h).trans hdead, (congrArg needsUpdate h).trans hsettled⟩

theorem hasLength_ofKey (key : SymbolKey) : (ofKey key).HasLength key.arity :=
  ⟨by simp [ofKey], nofun⟩

end StorySymbol

namespace SymbolTable

variable {table header : SymbolTable} {types : TypeRegistry} {key other : SymbolKey}
  {s t u : StorySymbol} {d : SymbolDefinition} {goal headerGoal : String} {tree : Goal}

/-- What steps keep of a table that starts with a header. -/
structure IsKept (table header : SymbolTable) : Prop where
  nodup : table.keys.Nodup
  length : ∀ {key s}, table.get? key = some s → s.HasLength key.arity
  kind : ∀ {key s}, table.get? key = some s → s.isSystem = false → s.kind = s.statedKind
  /-- A definition takes types from parameters of symbols that stay as long as it does. -/
  borrows : ∀ {key s d p ref}, table.get? key = some s → d ∈ s.definitions → p ∈ d.parameters →
    p.source = .reference ref → ref.index < ref.symbol.arity
      ∧ ∃ t, table.get? ref.symbol = some t ∧ (t.isSystem = true ∨ d.goal ∈ t.usages)
  /-- The symbols of the header stay as they were, but for the record of their use. -/
  declared : ∀ {key u}, header.get? key = some u →
    ∃ t, table.get? key = some t ∧ t.unused = u.unused
  /-- No other symbol is declared. -/
  inferred : ∀ {key s}, table.get? key = some s → s.isSystem = true → (header.get? key).isSome

/-- The header itself. -/
theorem IsInstalled.isKept (h : header.IsInstalled goal) : header.IsKept header where
  nodup := h.nodup
  length := h.length
  kind hget hsystem := absurd (h.settled hget).1 (by simp [hsystem])
  borrows {key s d p ref} hget hd hp href := by
    obtain ⟨e, he, -, -, hnone, -⟩ := h.single hget
    rw [he, List.mem_singleton] at hd
    have hmem := SymbolDefinition.mem_references.2 ⟨p, hp, ref, href, rfl⟩
    rw [hd, hnone] at hmem
    cases hmem
  declared hget := ⟨_, hget, rfl⟩
  inferred hget _ := by
    rw [hget]
    rfl

/-- A symbol of the table that is declared is settled, and its definition is the declaration. -/
theorem IsKept.of_isSystem (h : table.IsKept header) (hheader : header.IsInstalled headerGoal)
    (hget : table.get? key = some s) (hsystem : s.isSystem = true) :
    ∃ u, header.get? key = some u ∧ s.unused = u.unused ∧ s.isDead = false
      ∧ s.needsUpdate = false := by
  obtain ⟨u, hu⟩ := Option.isSome_iff_exists.1 (h.inferred hget hsystem)
  obtain ⟨t, ht, hunused⟩ := h.declared hu
  rw [hget, Option.some.injEq] at ht
  subst ht
  obtain ⟨-, hdead, hsettled⟩ := hheader.settled hu
  exact ⟨u, hu, hunused, StorySymbol.settled_of_unused hunused hdead hsettled⟩

/-! ### Entering a goal

The goal brings definitions for some symbols and usages for all that it calls. -/

/-- A symbol that was there is still there, and so are the goals that use it. -/
theorem exists_after_addGoal (hget : table.get? key = some s) :
    ∃ t, (table.addGoal goal types tree).1.get? key = some t ∧ t.isSystem = s.isSystem
      ∧ s.usages ⊆ t.usages := by
  have hsome : ((table.addGoal goal types tree).1.get? key).isSome := by
    rw [get?_addGoal, Option.isSome_map, get?_filled]
    split
    · rw [hget]
      rfl
    · rfl
  obtain ⟨t, ht⟩ := Option.isSome_iff_exists.1 hsome
  obtain ⟨touched, reached, rfl, -⟩ := exists_before_addGoal ht
  rw [hget, Option.getD_some] at ht
  refine ⟨_, ht, ?_, fun name hname => ?_⟩
  · rw [StorySymbol.isSystem_revised, (extends_gather goal _ s).isSystem]
  · rw [StorySymbol.usages_revised]
    exact mem_usages_gather.2 (Or.inl hname)

/-- A goal uses what it calls. -/
theorem mem_usages_addGoal (hcalls : key ∈ tree.calls.map Call.key) :
    ∃ t, (table.addGoal goal types tree).1.get? key = some t ∧ goal ∈ t.usages := by
  have hmem : goal ∈ (table.addGoal goal types tree).1.entriesOf .usages key := by
    rw [entriesOf_addGoal, Ledger.filter_takes_usages]
    refine List.mem_append_right _ (List.mem_replicate.2 ⟨?_, rfl⟩)
    exact (List.count_pos_iff.2 hcalls).ne'
  unfold entriesOf at hmem
  cases hget : (table.addGoal goal types tree).1.get? key with
  | none =>
    rw [hget] at hmem
    cases hmem
  | some t =>
    rw [hget] at hmem
    exact ⟨t, rfl, hmem⟩

/-- The definitions after entering a goal: those from before, and what the goal contributes. -/
theorem mem_definitions_gather {sites : List CallSite}
    (hd : d ∈ (gather goal (sitesOf sites key) s).definitions) :
    d ∈ s.definitions ∨ d ∈ contributed goal sites key := by
  cases hsystem : s.isSystem with
  | true =>
    rw [definitions_gather_of_isSystem hsystem] at hd
    exact Or.inl hd
  | false =>
    rw [definitions_gather _ _ hsystem] at hd
    exact List.mem_append.1 hd

theorem IsKept.addGoal (h : table.IsKept header) (hheader : header.IsInstalled headerGoal)
    (goal : String) (types : TypeRegistry) (tree : Goal) :
    (table.addGoal goal types tree).1.IsKept header := by
  have hbase (key : SymbolKey) : ((table.get? key).getD (.ofKey key)).HasLength key.arity := by
    cases hget : table.get? key with
    | none => exact StorySymbol.hasLength_ofKey key
    | some s => exact h.length hget
  -- Field by field. A symbol after the addition is one from before, or a new one, that was gathered
  -- and revised.
  refine
    { nodup := nodup_keys_addGoal h.nodup
      length := fun {key t} hget => ?length
      kind := fun {key t} hget hsystem => ?kind
      borrows := fun {key t d p ref} hget hd hp href => ?borrows
      declared := fun {key u} hget => ?declared
      inferred := fun {key t} hget hsystem => ?inferred }
  case length =>
    obtain ⟨touched, reached, rfl, -⟩ := exists_before_addGoal hget
    refine ⟨?_, fun d hd => ?_⟩
    · rw [StorySymbol.parameters_revised, (extends_gather goal _ _).parameters]
      exact (hbase key).parameters
    · rw [StorySymbol.definitions_revised] at hd
      rcases mem_definitions_gather hd with hd | hd
      · exact (hbase key).definitions d hd
      · obtain ⟨site, hsite, rfl, hparameters⟩ := parameters_of_contributed hd
        rw [hparameters]
        exact CallSite.length_parameters_ofGoal hsite
  case kind =>
    obtain ⟨touched, reached, rfl, htouched⟩ := exists_before_addGoal hget
    let base := (table.get? key).getD (.ofKey key)
    have hextends := extends_gather goal (sitesOf (CallSite.ofGoal types tree) key) base
    rw [StorySymbol.isSystem_revised, hextends.isSystem] at hsystem
    refine StorySymbol.kind_revised (hextends.isSystem.trans hsystem) fun huntouched => ?_
    have hkey : key ∈ table.definedKeys (CallSite.ofGoal types tree)
        ↔ contributed goal (CallSite.ofGoal types tree) key ≠ [] :=
      mem_definedKeys goal _ fun s hs => by simpa [base, hs] using hsystem
    have hcontributed : contributed goal (CallSite.ofGoal types tree) key = [] :=
      not_not.1 fun hne => htouched huntouched (hkey.2 hne)
    have hkind : base.kind = base.statedKind := by
      cases hget : table.get? key with
      | none =>
        simp only [base, hget]
        rfl
      | some s =>
        simp only [base, hget, Option.getD_some] at hsystem ⊢
        exact h.kind hget hsystem
    refine kind_gather.trans (hkind.trans (StorySymbol.statedKind_congr ?_).symm)
    rw [definitions_gather _ _ hsystem]
    exact (congrArg _ hcontributed).trans (List.append_nil _)
  case borrows =>
    obtain ⟨touched, reached, rfl, -⟩ := exists_before_addGoal hget
    rw [StorySymbol.definitions_revised] at hd
    rcases mem_definitions_gather hd with hd | hd
    · cases hbefore : table.get? key with
      | none =>
        rw [hbefore] at hd
        cases hd
      | some s =>
        rw [hbefore, Option.getD_some] at hd
        obtain ⟨hindex, t, ht, hstays⟩ := h.borrows hbefore hd hp href
        obtain ⟨t', ht', hsystem, husages⟩ := exists_after_addGoal ht
        exact ⟨hindex, t', ht', hstays.imp hsystem.trans (husages ·)⟩
    · -- The goal calls the symbol from which it takes a type.
      obtain ⟨site, hsite, rfl, hparameters⟩ := parameters_of_contributed hd
      rw [hparameters] at hp
      obtain ⟨call, hcall, hsymbol, hindex⟩ := CallSite.exists_call_of_reference hsite hp href
      obtain ⟨t, ht, hgoal⟩ : ∃ t, (table.addGoal goal types tree).1.get? call.key = some t
          ∧ goal ∈ t.usages := mem_usages_addGoal (List.mem_map_of_mem hcall)
      rw [goal_of_contributed hd, hsymbol]
      exact ⟨hindex, t, hsymbol ▸ ht, Or.inr hgoal⟩
  case declared =>
    obtain ⟨t, ht, hunused⟩ := h.declared hget
    have hsystem : t.isSystem = true :=
      (StorySymbol.isSystem_of_unused hunused).trans (hheader.settled hget).1
    obtain ⟨t', ht', -⟩ : ∃ t', (table.addGoal goal types tree).1.get? key = some t'
        ∧ t'.isSystem = t.isSystem ∧ t.usages ⊆ t'.usages := exists_after_addGoal ht
    obtain ⟨touched, reached, rfl, -⟩ := exists_before_addGoal ht'
    rw [ht, Option.getD_some] at ht'
    have hextends := extends_gather goal (sitesOf (CallSite.ofGoal types tree) key) t
    rw [StorySymbol.revised_of_isSystem (hextends.isSystem.trans hsystem)] at ht'
    refine ⟨_, ht', Eq.trans ?_ hunused⟩
    exact StorySymbol.unused_eq hextends.verdict kind_gather (definitions_gather_of_isSystem hsystem)
  case inferred =>
    obtain ⟨touched, reached, rfl, -⟩ := exists_before_addGoal hget
    rw [StorySymbol.isSystem_revised, (extends_gather goal _ _).isSystem] at hsystem
    cases hbefore : table.get? key with
    | none =>
      rw [hbefore] at hsystem
      cases hsystem
    | some s =>
      rw [hbefore] at hsystem
      exact h.inferred hbefore hsystem

/-! ### Taking out a goal

A definition that stays takes its types from symbols that its own goal calls, and that goal is still
there. -/

theorem IsKept.removeGoal (h : table.IsKept header) (hheader : header.IsInstalled headerGoal)
    (hgoal : goal ≠ headerGoal) : (table.removeGoal goal).IsKept header := by
  refine
    { nodup := nodup_keys_removeGoal h.nodup
      length := fun {key t} hget => ?length
      kind := fun {key t} hget hsystem => ?kind
      borrows := fun {key t d p ref} hget hd hp href => ?borrows
      declared := fun {key u} hget => ?declared
      inferred := fun {key t} hget hsystem => ?inferred }
  case length =>
    rw [get?_removeGoal] at hget
    obtain ⟨s, hs, rfl⟩ := Option.map_eq_some_iff.1 hget
    refine ⟨?_, fun d hd => ?_⟩
    · rw [StorySymbol.parameters_revised]
      exact (h.length hs).parameters
    · rw [StorySymbol.definitions_revised] at hd
      exact (h.length hs).definitions d (List.mem_filter.1 hd).1
  case kind =>
    rw [get?_removeGoal] at hget
    obtain ⟨s, hs, rfl⟩ := Option.map_eq_some_iff.1 hget
    rw [StorySymbol.isSystem_revised] at hsystem
    refine StorySymbol.kind_revised hsystem fun huntouched => ?_
    have hdefinitions := definitions_strip hs (decide_eq_false_iff_not.1 huntouched)
    exact (h.kind hs hsystem).trans (StorySymbol.statedKind_congr hdefinitions).symm
  case borrows =>
    rw [get?_removeGoal] at hget
    obtain ⟨s, hs, rfl⟩ := Option.map_eq_some_iff.1 hget
    rw [StorySymbol.definitions_revised] at hd
    obtain ⟨hd, hother⟩ := List.mem_filter.1 hd
    obtain ⟨hindex, t, ht, hstays⟩ := h.borrows hs hd hp href
    refine ⟨hindex, _, by rw [get?_removeGoal, ht, Option.map_some], ?_⟩
    -- The definition is that of another goal, which is not forgotten as a user.
    rw [StorySymbol.isSystem_revised, StorySymbol.usages_revised]
    exact hstays.imp id fun hmem => List.mem_filter.2 ⟨hmem, hother⟩
  case declared =>
    obtain ⟨t, ht, hunused⟩ := h.declared hget
    have hsystem : (strip goal t).isSystem = true :=
      (StorySymbol.isSystem_of_unused hunused).trans (hheader.settled hget).1
    refine ⟨strip goal t, ?_, ?_⟩
    · rw [get?_removeGoal, ht, Option.map_some, StorySymbol.revised_of_isSystem hsystem]
    · refine (StorySymbol.unused_eq (s := t) (t := strip goal t) rfl rfl ?_).trans hunused
      obtain ⟨d, hd, hown, -⟩ := hheader.single hget
      have hdefinitions : t.definitions = [d] := (StorySymbol.definitions_of_unused hunused).trans hd
      have hkept : (d.goal != goal) = true := by simpa [hown] using hgoal.symm
      simp [strip, hdefinitions, hkept]
  case inferred =>
    rw [get?_removeGoal] at hget
    obtain ⟨s, hs, rfl⟩ := Option.map_eq_some_iff.1 hget
    rw [StorySymbol.isSystem_revised] at hsystem
    exact h.inferred hs hsystem

/-! ### Dropping symbols

Only what nothing refers to is dropped, and nothing takes a type from that. -/

/-- Nothing is dropped from which a definition takes a type. -/
theorem IsKept.prune (h : table.IsKept header) (hheader : header.IsInstalled headerGoal) :
    table.prune.IsKept header := by
  have hbefore {key : SymbolKey} {s : StorySymbol} (hget : table.prune.get? key = some s) :
      table.get? key = some s := by
    rw [get?_prune h.nodup] at hget
    exact (Option.filter_eq_some_iff.1 hget).1
  have hstays {key : SymbolKey} {s : StorySymbol} (hget : table.get? key = some s)
      (hreferred : isReferred s = true) : table.prune.get? key = some s := by
    rw [get?_prune h.nodup, hget, Option.filter_some_pos hreferred]
  -- Pruning takes away and changes nothing, so that only what must stay is to be shown: symbols
  -- that lend a type and those of the header.
  refine
    { nodup := nodup_keys_prune h.nodup
      length := fun hget => h.length (hbefore hget)
      kind := fun hget => h.kind (hbefore hget)
      borrows := fun {key s d p ref} hget hd hp href => ?borrows
      declared := fun {key u} hget => ?declared
      inferred := fun hget => h.inferred (hbefore hget) }
  case borrows =>
    obtain ⟨hindex, t, ht, hlends⟩ := h.borrows (hbefore hget) hd hp href
    refine ⟨hindex, t, hstays ht ?_, hlends⟩
    rcases hlends with hsystem | hmem
    · simp [isReferred, hsystem]
    · unfold isReferred
      rw [List.isEmpty_eq_false_iff_exists_mem.2 ⟨d.goal, hmem⟩]
      simp
  case declared =>
    obtain ⟨t, ht, hunused⟩ := h.declared hget
    have hsystem := (StorySymbol.isSystem_of_unused hunused).trans (hheader.settled hget).1
    exact ⟨t, hstays ht (by simp [isReferred, hsystem]), hunused⟩

/-! ### Resolving and taking back

These steps write on verdicts alone. -/

theorem IsKept.rewrite {after : SymbolTable} (h : table.IsKept header)
    (hheader : header.IsInstalled headerGoal) (hkeys : after.keys = table.keys)
    (hsymbol : ∀ {key s}, table.get? key = some s → ∃ t, after.get? key = some t ∧ Rewrites s t) :
    after.IsKept header := by
  have hbefore {key : SymbolKey} {t : StorySymbol} (hget : after.get? key = some t) :
      ∃ s, table.get? key = some s ∧ Rewrites s t := by
    have hkey : key ∈ table.keys := hkeys ▸ mem_keys_of_get? hget
    obtain ⟨s, hs⟩ := Option.isSome_iff_exists.1 (get?_isSome_iff.2 hkey)
    obtain ⟨t', ht', hrewrites⟩ := hsymbol hs
    rw [hget, Option.some.injEq] at ht'
    exact ⟨s, hs, ht' ▸ hrewrites⟩
  -- A rewrite keeps the evidence, on which kinds, references and usages rest; the number of
  -- parameters is kept by itself, and declared symbols are not rewritten.
  refine
    { nodup := hkeys ▸ h.nodup
      length := fun {key t} hget => ?length
      kind := fun {key t} hget hsystem => ?kind
      borrows := fun {key t d p ref} hget hd hp href => ?borrows
      declared := fun {key u} hget => ?declared
      inferred := fun {key t} hget hsystem => ?inferred }
  case length =>
    obtain ⟨s, hs, hrewrites⟩ := hbefore hget
    have hlength := h.length hs
    rw [← key_of_get? hs] at hlength ⊢
    exact hrewrites.length hlength
  case kind =>
    obtain ⟨s, hs, hrewrites⟩ := hbefore hget
    have hevidence := hrewrites.evidence
    rw [StorySymbol.isSystem_eq_of_evidence hevidence] at hsystem
    rw [StorySymbol.statedKind_congr (StorySymbol.definitions_eq_of_evidence hevidence),
      ← h.kind hs hsystem]
    show t.evidence.kind = s.evidence.kind
    rw [hevidence]
  case borrows =>
    obtain ⟨s, hs, hrewrites⟩ := hbefore hget
    rw [StorySymbol.definitions_eq_of_evidence hrewrites.evidence] at hd
    obtain ⟨hindex, t, ht, hstays⟩ := h.borrows hs hd hp href
    obtain ⟨t', ht', hrewrites'⟩ := hsymbol ht
    have hsystem := StorySymbol.isSystem_eq_of_evidence hrewrites'.evidence
    have husages : t'.usages = t.usages := by
      show t'.evidence.usages = t.evidence.usages
      rw [hrewrites'.evidence]
    exact ⟨hindex, t', ht', hstays.imp hsystem.trans (husages ▸ ·)⟩
  case declared =>
    obtain ⟨t, ht, hunused⟩ := h.declared hget
    obtain ⟨hsystem, hdead, hsettled⟩ := hheader.settled hget
    obtain ⟨hdead', hsettled'⟩ := StorySymbol.settled_of_unused hunused hdead hsettled
    obtain ⟨t', ht', hrewrites⟩ := hsymbol ht
    rw [hrewrites.declared ((StorySymbol.isSystem_of_unused hunused).trans hsystem) hdead' hsettled']
      at ht'
    exact ⟨t, ht', hunused⟩
  case inferred =>
    obtain ⟨s, hs, hrewrites⟩ := hbefore hget
    rw [StorySymbol.isSystem_eq_of_evidence hrewrites.evidence] at hsystem
    exact h.inferred hs hsystem

end SymbolTable

theorem TableStep.isKept_apply {table header : SymbolTable} {headerGoal : String}
    (h : table.IsKept header) (hheader : header.IsInstalled headerGoal) (step : TableStep)
    (hstep : step ≠ .removeGoal headerGoal) : (step.apply table).IsKept header := by
  cases step with
  | addGoal goal types tree => exact h.addGoal hheader goal types tree
  | removeGoal goal => exact h.removeGoal hheader fun heq => hstep (heq ▸ rfl)
  | prune => exact h.prune hheader
  | invalidateAll =>
    exact h.rewrite hheader (SymbolTable.keys_invalidateAll table) SymbolTable.rewrites_invalidateAll
  | update weights =>
    exact h.rewrite hheader (SymbolTable.keys_update table weights) (SymbolTable.rewrites_update weights)

theorem TableStep.isKept_run {table header : SymbolTable} {headerGoal : String}
    (h : table.IsKept header) (hheader : header.IsInstalled headerGoal) (steps : List TableStep)
    (hsteps : TableStep.removeGoal headerGoal ∉ steps) :
    (steps.foldl TableStep.apply table).IsKept header := by
  induction steps generalizing table with
  | nil => exact h
  | cons step rest ih =>
    rw [List.mem_cons, not_or] at hsteps
    exact ih (TableStep.isKept_apply h hheader step (Ne.symm hsteps.1)) hsteps.2

/-! ## What the invariant says

The parts of the representation as the rest of the program relies on them. -/

/-- The kind on which definitions agree, unknown if there are none or two that differ. -/
def IsCommonKind (kind : SymbolKind) (definitions : List SymbolDefinition) : Prop :=
  (definitions ≠ [] ∧ ∀ d ∈ definitions, d.kind = kind)
    ∨ (kind = .unknown ∧ (definitions = [] ∨ ∃ d ∈ definitions, ∃ e ∈ definitions, d.kind ≠ e.kind))

theorem isCommonKind_statedKind (s : StorySymbol) : IsCommonKind s.statedKind s.definitions := by
  unfold StorySymbol.statedKind StorySymbol.hasKindConflict
  cases hdefinitions : s.definitions with
  | nil => exact Or.inr ⟨rfl, Or.inl rfl⟩
  | cons first rest =>
    by_cases hconflict : ∃ d ∈ rest, d.kind ≠ first.kind
    · have hany : rest.any (fun d => d.kind != first.kind) = true := by simpa using hconflict
      obtain ⟨d, hd, hne⟩ := hconflict
      refine Or.inr ⟨by simp only [hany, if_true], Or.inr ?_⟩
      exact ⟨d, List.mem_cons_of_mem _ hd, first, List.mem_cons_self, hne⟩
    · have hall : ∀ d ∈ rest, d.kind = first.kind := by simpa using hconflict
      have hany : rest.any (fun d => d.kind != first.kind) = false := by simpa using hall
      refine Or.inl ⟨List.cons_ne_nil first rest, fun d hd => ?_⟩
      simp only [hany, Bool.false_eq_true, if_false, List.head?_cons, Option.map_some,
        Option.getD_some]
      rcases List.mem_cons.1 hd with rfl | hd
      · rfl
      · exact hall d hd

namespace SymbolTable

/-- The parts of a table fit together, and the symbols of a header are as they were installed. -/
structure IsWellFormed (table header : SymbolTable) : Prop where
  /-- A symbol is found under its own name and number of parameters. -/
  found : ∀ s ∈ table.symbols, table.get? s.key = some s
  once : table.keys.Nodup
  parameters : ∀ s ∈ table.symbols, s.parameters.length = s.arity
  definitions : ∀ s ∈ table.symbols, ∀ d ∈ s.definitions, d.parameters.length = s.arity
  /-- A reference leads to a parameter of a symbol that is there. -/
  references : ∀ s ∈ table.symbols, ∀ d ∈ s.definitions, ∀ p ∈ d.parameters, ∀ ref,
    p.source = .reference ref → ∃ t, table.get? ref.symbol = some t ∧ ref.index < t.arity
  kinds : ∀ s ∈ table.symbols, s.isSystem = false → IsCommonKind s.kind s.definitions
  /-- A declared symbol is what it was but for the record of its use: it has no other flag, and its
  one definition is the declaration, which it adopted. -/
  declared : ∀ s ∈ table.symbols, s.isSystem = true → ∃ u ∈ header.symbols,
    s = { u with usages := s.usages, reads := s.reads, writes := s.writes }
      ∧ s.isDead = false ∧ s.needsUpdate = false
      ∧ ∃ d, s.definitions = [d] ∧ d.access = .declaration ∧ s.canonical = some 0
  /-- And it is still there. -/
  installed : ∀ u ∈ header.symbols, ∃ s, table.get? u.key = some s ∧ s.isSystem = true

theorem IsKept.isWellFormed {table header : SymbolTable} {headerGoal : String}
    (h : table.IsKept header) (hheader : header.IsInstalled headerGoal) :
    table.IsWellFormed header := by
  have hget {s : StorySymbol} (hmem : s ∈ table.symbols) : table.get? s.key = some s :=
    get?_of_mem h.nodup hmem
  -- Most of what is said of a table is said of each lookup already.
  refine
    { found := fun s hmem => hget hmem
      once := h.nodup
      parameters := fun s hmem => (h.length (hget hmem)).parameters
      definitions := fun s hmem => (h.length (hget hmem)).definitions
      references := fun s hmem d hd p hp ref href => ?references
      kinds := fun s hmem hsystem => ?kinds
      declared := fun s hmem hsystem => ?declared
      installed := fun u hmem => ?installed }
  case references =>
    obtain ⟨hindex, t, ht, -⟩ := h.borrows (hget hmem) hd hp href
    refine ⟨t, ht, ?_⟩
    rw [StorySymbol.arity, key_of_get? ht]
    exact hindex
  case kinds =>
    rw [h.kind (hget hmem) hsystem]
    exact isCommonKind_statedKind s
  case declared =>
    obtain ⟨u, hu, hunused, hdead, hsettled⟩ := h.of_isSystem hheader (hget hmem) hsystem
    obtain ⟨d, hd, -, haccess, -, hcanonical⟩ := hheader.single hu
    refine ⟨u, mem_symbols_of_get? hu, ?_, hdead, hsettled, d, ?_, haccess, ?_⟩
    · show { s.unused with usages := s.usages, reads := s.reads, writes := s.writes } = _
      rw [hunused]
      rfl
    · exact (StorySymbol.definitions_of_unused hunused).trans hd
    · show s.unused.canonical = some 0
      rw [hunused]
      exact hcanonical
  case installed =>
    have hu := get?_of_mem hheader.nodup hmem
    obtain ⟨t, ht, hunused⟩ := h.declared hu
    exact ⟨t, ht, (StorySymbol.isSystem_of_unused hunused).trans (hheader.settled hu).1⟩

/-- **Every table is well-formed that steps lead to from the declarations of a header**, whatever the
goals are like, as long as the header's own goal is not taken out. Goals may even be entered twice. -/
theorem isWellFormed_run (headerGoal : String) (types : TypeRegistry)
    (declarations : List Declaration) (steps : List TableStep)
    (hsteps : TableStep.removeGoal headerGoal ∉ steps) :
    (steps.foldl TableStep.apply (declareAll {} headerGoal types declarations)).IsWellFormed
      (declareAll {} headerGoal types declarations) := by
  have hheader := isInstalled_declareAll headerGoal types declarations
  exact (TableStep.isKept_run hheader.isKept hheader steps hsteps).isWellFormed hheader

/-- A goal that reads a database keeps it in the table when the goal that wrote to it goes. -/
theorem read_database_stays :
    let header := declareAll {} "story_header" {}
      [{ name := "Dies", kind := .event, parameters := [], span := ⟨0, 0⟩ }]
    let steps : List TableStep :=
      [.addGoal "Seed" {} (Sketch.goal [Sketch.call 1 "DB_X" [.integer 7]] [] []),
        .addGoal "Derived" {} (Sketch.goal []
          [Sketch.rule (Sketch.call 1 "DB_X" [.name "_x"]) [] [Sketch.call 2 "DB_Y" [.name "_x"]]] []),
        .update [], .removeGoal "Seed", .prune]
    TableStep.removeGoal "story_header" ∉ steps
      ∧ (steps.foldl TableStep.apply header).IsWellFormed header
      ∧ (steps.foldl TableStep.apply header).keys = [⟨"Dies", 0⟩, ⟨"DB_X", 1⟩, ⟨"DB_Y", 1⟩] := by
  intro header steps
  have hsteps : TableStep.removeGoal "story_header" ∉ steps := by simp [steps]
  exact ⟨hsteps, isWellFormed_run "story_header" {} _ steps hsteps, by decide +kernel⟩

end SymbolTable

end StoryCheck
