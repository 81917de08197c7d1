import StoryCheck.Proofs.Symbol.LostResolution

/-!
# Deadlocks

Databases that are filled from each other only wait for each other for ever. Such a set is left to
itself: whatever the chain of an attempt, a member of it has no answer but blocked or dead, so that
no candidate of a member is ever complete and none is pending either. The first attempt at the root
gives a member up, if it was not given up below another root before.

* **`StorySymbol.AgreesOn`** — the type that the definitions of a symbol agree on.
* **`SymbolTable.IsDeadlock`** — databases that are filled from each other only.
* **`Resolving.Waits`** — what holds of a deadlock all through a sweep: a member is as it was, or it
  was given up, and it is not remembered as pending.
* **`deadlocks_are_given_up`** — the first sweep gives up every member, and the second leaves it so.
-/

namespace StoryCheck

/-! ## What definitions agree on

A symbol that is given up keeps the types that its definitions state, as far as they do not
contradict each other. -/

namespace StorySymbol

variable {s : StorySymbol} {index : Nat} {type : ValueType}

/-- A definition states a known type for a parameter. -/
def States (s : StorySymbol) (index : Nat) (type : ValueType) : Prop :=
  ∃ d ∈ s.definitions, ∃ p, d.parameters[index]? = some p ∧ p.source = .explicit type
    ∧ type.isKnown = true

/-- The type of a parameter as far as it is stated: the only one that is, unknown if none is, and
contradictory if two are. -/
inductive AgreesOn (s : StorySymbol) (index : Nat) : ValueType → Prop where
  | unstated (hnone : ∀ type, ¬ s.States index type) : AgreesOn s index .unknown
  | stated {type : ValueType} (hstated : s.States index type)
      (honly : ∀ other, s.States index other → other = type) : AgreesOn s index type
  | disputed {a b : ValueType} (ha : s.States index a) (hb : s.States index b) (hne : a ≠ b) :
      AgreesOn s index .invalid

theorem mem_explicitTypes : type ∈ s.explicitTypes index ↔ s.States index type := by
  simp only [explicitTypes, List.mem_filterMap, States]
  refine exists_congr fun d => and_congr_right fun _ => ?_
  cases hget : d.parameters[index]? with
  | none => simp
  | some p =>
    cases hsource : p.source with
    | explicit stated =>
      simp only [Option.map_some, hsource, Option.some.injEq, exists_eq_left',
        ParameterSource.explicit.injEq]
      split
      · next hknown =>
        simp only [Option.some.injEq]
        exact ⟨fun heq => ⟨heq, heq ▸ hknown⟩, And.left⟩
      · next hunknown =>
        simp only [reduceCtorEq, false_iff, not_and]
        rintro rfl
        exact hunknown
    | reference ref => simp [hsource]
    | unknown => simp [hsource]

theorem agreesOn_agreedType (s : StorySymbol) (index : Nat) :
    s.AgreesOn index (agreedType (s.explicitTypes index)) := by
  have hmem {type} : type ∈ s.explicitTypes index ↔ s.States index type := mem_explicitTypes
  cases htypes : s.explicitTypes index with
  | nil =>
    rw [htypes] at hmem
    exact .unstated fun type hstated => List.not_mem_nil (hmem.2 hstated)
  | cons first rest =>
    rw [htypes] at hmem
    have hfirst : s.States index first := hmem.1 List.mem_cons_self
    rw [agreedType]
    split
    · next hall =>
      refine .stated hfirst fun other hstated => ?_
      rcases List.mem_cons.1 (hmem.2 hstated) with rfl | hother
      · rfl
      · exact eq_of_beq (List.all_eq_true.1 hall other hother)
    · next hdiffer =>
      obtain ⟨other, hother, hne⟩ : ∃ other ∈ rest, other ≠ first := by
        simpa using hdiffer
      exact .disputed (hmem.1 (List.mem_cons_of_mem _ hother)) hfirst hne

theorem type_markDead {p : SymbolParameter} (hget : s.markDead.parameters[index]? = some p) :
    s.AgreesOn index p.type := by
  rw [markDead, getElem?_parameters_fallBack] at hget
  obtain ⟨q, -, rfl⟩ := Option.map_eq_some_iff.1 hget
  exact s.agreesOn_agreedType index

theorem length_parameters_markDead (s : StorySymbol) :
    s.markDead.parameters.length = s.parameters.length := by
  simp [markDead, fallBack]

theorem resolution_markDead (s : StorySymbol) : s.markDead.resolution = .dead := by
  simp [resolution, markDead]

end StorySymbol

/-! ## Sets of databases that wait for each other

The members may wait in any web, and there may be one that nothing fills at all. What counts is that
no definition of a member can do without another member. -/

/-- A definition takes a type from a symbol, takes types from members only, and has a source for
every parameter. -/
structure SymbolDefinition.CopiesFrom (d : SymbolDefinition) (members : SymbolKey → Prop) : Prop where
  whole : d.isPartial = false
  refers : d.references ≠ []
  member : ∀ other ∈ d.references, members other

namespace SymbolTable

/-- Databases of which each is filled only by copying others of them, or not at all. -/
structure IsDeadlock (table : SymbolTable) (members : SymbolKey → Prop) : Prop where
  database : ∀ key, members key →
    ∃ s, table.get? key = some s ∧ s.isSystem = false ∧ s.isDatabase = true
  copied : ∀ key s d, members key → table.get? key = some s → d ∈ s.definitions →
    d.access = .write → d.CopiesFrom members

variable {table : SymbolTable} {members : SymbolKey → Prop} {weights : Weights} {key : SymbolKey}
  {s : StorySymbol} {index : Nat} {d : SymbolDefinition}

theorem IsDeadlock.candidate (h : table.IsDeadlock members) (hkey : members key)
    (hget : table.get? key = some s) (hd : (index, d) ∈ s.candidates weights) :
    d.CopiesFrom members := by
  obtain ⟨hmem, hwrite⟩ := StorySymbol.mem_candidates.1 hd
  obtain ⟨t, ht, -, hdatabase⟩ := h.database key hkey
  obtain rfl : t = s := Option.some.inj (ht.symm.trans hget)
  exact h.copied key t d hkey hget (List.mem_of_getElem? hmem) (hwrite hdatabase)

end SymbolTable

/-! ## Attempts

A walk inside the set meets the chain or a member that was given up, but nothing pending. So the
root of an attempt is given up, and those below it are blocked for the time being. -/

namespace Resolving

open SymbolTable

variable {source : SymbolTable} {members : SymbolKey → Prop} {chain : List SymbolKey}
  {key : SymbolKey} {σ σ' : Sweep} {s t : StorySymbol} {verdict : Resolution} {weights : Weights}

/-- All through a sweep a member of a deadlock is as it was or given up, and it is not remembered. -/
structure Waits (source : SymbolTable) (members : SymbolKey → Prop) (σ : Sweep) : Prop where
  evolves : source.Evolves σ.table
  forgotten : ∀ key, members key → key ∉ σ.pending
  symbol : ∀ key s, members key → source.get? key = some s →
    σ.table.get? key = some s ∨ σ.table.get? key = some s.markDead

/-- What is shown of each attempt: a member comes out blocked or dead, and given up at the root. -/
structure Refuses (source : SymbolTable) (members : SymbolKey → Prop) (chain : List SymbolKey)
    (key : SymbolKey) (verdict : Resolution) (σ' : Sweep) : Prop where
  waits : Waits source members σ'
  verdict : members key → verdict = .dead ∨ verdict = .blocked
  root : chain = [] → members key → ∀ s, source.get? key = some s →
    σ'.table.get? key = some s.markDead

/-- An attempt that finds the deadlock waiting refuses its members. -/
def Judged (source : SymbolTable) (members : SymbolKey → Prop) (chain : List SymbolKey)
    (key : SymbolKey) (σ : Sweep) (verdict : Resolution) (σ' : Sweep) : Prop :=
  Waits source members σ → Refuses source members chain key verdict σ'

theorem Waits.of_table (h : Waits source members σ) (htable : σ'.table = σ.table)
    (hpending : ∀ key, members key → key ∉ σ'.pending) : Waits source members σ' where
  evolves := htable ▸ h.evolves
  forgotten := hpending
  symbol := htable ▸ h.symbol

/-- A flagged member is as it was, since giving it up takes the flag off. -/
theorem Waits.get?_source (h : Waits source members σ) (hkey : members key)
    (hget : σ.table.get? key = some s) (hflag : s.needsUpdate = true) :
    source.get? key = some s := by
  obtain ⟨t, ht, -⟩ := h.evolves.exists_before hget
  rcases h.symbol key t hkey ht with hsame | hdead
  · exact ht.trans (hsame.symm.trans hget)
  · obtain rfl : t.markDead = s := Option.some.inj (hdead.symm.trans hget)
    cases hflag

/-- Changing a symbol outside the deadlock, or giving up a member. -/
theorem Waits.modify {f : StorySymbol → StorySymbol} (h : Waits source members σ)
    (hkey : ∀ s, (f s).key = s.key) (hget : σ.table.get? key = some s) (hf : s.Evolves (f s))
    (hmember : members key → source.get? key = some s ∧ f s = s.markDead) :
    Waits source members (σ.modify key f) where
  evolves := h.evolves.trans (.modify hkey fun t ht => by
    rw [hget, Option.some.injEq] at ht
    exact ht ▸ hf)
  forgotten := h.forgotten
  symbol other t hother ht := by
    rw [Sweep.table_modify, get?_modify hkey]
    split
    next heq =>
      subst heq
      obtain ⟨hsource, hdead⟩ := hmember hother
      obtain rfl : t = s := Option.some.inj (ht.symm.trans hsource)
      exact Or.inr (by rw [hget, Option.map_some, hdead])
    next => exact h.symbol other t hother ht

section Loops

variable {R : SymbolKey → Sweep → Resolution → Sweep → Prop}

/-- Parameters of which one refers to a member and none to another symbol are not completed, and
what stands in the way is a dead or blocked symbol. -/
theorem Completes.refused {P : Sweep → Prop}
    (hR : ∀ key σ verdict σ', R key σ verdict σ' → P σ → members key →
      verdict = .dead ∨ verdict = .blocked)
    {parameters : List DefinitionParameter} {c : Completion} (h : Completes R parameters σ c σ')
    (hP : P σ) (hsource : ∀ p ∈ parameters, p.source ≠ .unknown)
    (hmembers : ∀ p ∈ parameters, ∀ ref, p.source = .reference ref → members ref.symbol)
    (hsome : ∃ p ∈ parameters, ∃ ref, p.source = .reference ref) :
    c = .error .dead ∨ c = .error .blocked := by
  induction h with
  | nil =>
    obtain ⟨p, hp, -⟩ := hsome
    cases hp
  | @explicit p rest type σ σ' c htype _ ih =>
    -- The reference stands further on.
    have hsome : ∃ p ∈ rest, ∃ ref, p.source = .reference ref := by
      obtain ⟨q, hq, ref, href⟩ := hsome
      rcases List.mem_cons.1 hq with rfl | hq
      · cases htype.symm.trans href
      · exact ⟨q, hq, ref, href⟩
    rcases ih hP (fun p hp => hsource p (List.mem_cons_of_mem _ hp))
      (fun p hp => hmembers p (List.mem_cons_of_mem _ hp)) hsome with rfl | rfl
    · exact Or.inl rfl
    · exact Or.inr rfl
  | unknown hunknown => exact absurd hunknown (hsource _ List.mem_cons_self)
  | typed href hattempt | untyped href hattempt =>
    have hmember := hmembers _ List.mem_cons_self _ href
    rcases hR _ _ _ _ hattempt hP hmember with hverdict | hverdict <;> cases hverdict
  | failed href hattempt =>
    have hmember := hmembers _ List.mem_cons_self _ href
    rcases hR _ _ _ _ hattempt hP hmember with rfl | rfl
    · exact Or.inl rfl
    · exact Or.inr rfl

/-- Among candidates that copy members only none is found, and none is pending. -/
theorem Searches.refused {P : Sweep → Prop}
    (hkeep : ∀ key σ verdict σ', R key σ verdict σ' → P σ → P σ')
    (hR : ∀ key σ verdict σ', R key σ verdict σ' → P σ → members key →
      verdict = .dead ∨ verdict = .blocked)
    {candidates : List (Nat × SymbolDefinition)} {failures failures' : Failures}
    {found : Option Adoption} (h : Searches R candidates failures σ found failures' σ') (hP : P σ)
    (hcopied : ∀ index d, (index, d) ∈ candidates → d.CopiesFrom members)
    (hpending : failures.pending = false) : found = none ∧ failures'.pending = false := by
  have hwhy {d : SymbolDefinition} {σ σ' : Sweep} {c : Completion}
      (hd : d.CopiesFrom members) (htypes : Completes R d.parameters σ c σ') (hP : P σ) :
      c = .error .dead ∨ c = .error .blocked := by
    refine htypes.refused hR hP (fun p hp => SymbolDefinition.source_ne_unknown hd.whole hp) ?_ ?_
    · exact fun p hp ref href =>
        hd.member _ (SymbolDefinition.mem_references.2 ⟨p, hp, ref, href, rfl⟩)
    · obtain ⟨other, hother⟩ := List.exists_mem_of_ne_nil _ hd.refers
      obtain ⟨p, hp, ref, href, -⟩ := SymbolDefinition.mem_references.1 hother
      exact ⟨p, hp, ref, href⟩
  induction h with
  | exhausted => exact ⟨rfl, hpending⟩
  | partly hpartial => exact absurd hpartial (by simp [(hcopied _ _ List.mem_cons_self).whole])
  | complete _ htypes =>
    rcases hwhy (hcopied _ _ List.mem_cons_self) htypes hP with heq | heq <;> cases heq
  | incomplete _ htypes _ ih =>
    refine ih (htypes.keep hkeep hP) (fun index d hd => hcopied index d (List.mem_cons_of_mem _ hd)) ?_
    rcases hwhy (hcopied _ _ List.mem_cons_self) htypes hP with heq | heq <;> cases heq <;>
      exact hpending

end Loops

/-- The walk of a symbol leaves the deadlock as it is, and that of a member finds nothing. -/
theorem Walked.refused {found : Option Adoption} {failures : Failures}
    (hdeadlock : source.IsDeadlock members)
    (hwalked : Walked (fun other σ verdict σ' => Attempt (key :: chain) other σ verdict σ'
      ∧ Judged source members (key :: chain) other σ verdict σ') weights chain key σ s found failures
        σ')
    (h : Waits source members σ) :
    Waits source members σ' ∧ (members key → found = none ∧ failures.pending = false) := by
  have hvisit : Waits source members (σ.visit chain) := h.of_table rfl h.forgotten
  refine ⟨hwalked.searches.keep (P := Waits source members) (fun _ _ _ _ hR hP => (hR.2 hP).waits)
    hvisit, fun hkey => ?_⟩
  have hsource := h.get?_source hkey hwalked.get?_eq hwalked.flagged
  exact hwalked.searches.refused (P := Waits source members)
    (fun _ _ _ _ hR hP => (hR.2 hP).waits) (fun _ _ _ _ hR hP => (hR.2 hP).verdict) hvisit
    (fun index d hd => hdeadlock.candidate hkey hsource hd) rfl

/-- **An attempt at the root gives up a member of a deadlock**, and leaves the other members as they
were or gives them up as well. -/
theorem refuses_resolve (hdeadlock : source.IsDeadlock members)
    (hflagged : ∀ key s, members key → source.get? key = some s → s.needsUpdate = true)
    (weights : Weights) (room : Nat) (key : SymbolKey) (σ : Sweep)
    (hroom : σ.table.keys.length ≤ room) (h : Waits source members σ) :
    Refuses source members [] key ((resolve weights room [] key).run σ).1
      ((resolve weights room [] key).run σ).2 := by
  refine (attempt_induction weights (motive := Judged source members)
    ?known ?adopted ?pending ?blocked ?undefined ?dead room key σ hroom).2 h
  case known =>
    intro chain key σ verdict hwalk h
    -- A member that is not walked was given up before, or it stands on the chain.
    have hmember (hkey : members key) (s) (hs : source.get? key = some s) :
        verdict = .dead ∧ σ.table.get? key = some s.markDead
          ∨ verdict = .blocked ∧ key ∈ chain := by
      obtain ⟨hnone, -⟩ | ⟨t, hget, hcases⟩ := toWalk_eq_error hwalk
      · exact absurd (hs.symm.trans (h.evolves.get?_eq_none_iff.1 hnone)) nofun
      · obtain ⟨hsettled, rfl⟩ | ⟨-, hmem, -⟩ | ⟨-, -, hmem, rfl⟩ := hcases
        · rcases h.symbol key s hkey hs with hsame | hdead
          · obtain rfl : t = s := Option.some.inj (hget.symm.trans hsame)
            exact absurd (hflagged key t hkey hs) (by simp [hsettled])
          · obtain rfl : t = s.markDead := Option.some.inj (hget.symm.trans hdead)
            exact Or.inl ⟨s.resolution_markDead, hdead⟩
        · exact absurd hmem (h.forgotten key hkey)
        · exact Or.inr ⟨rfl, hmem⟩
    refine ⟨h, fun hkey => ?_, fun hroot hkey s hs => ?_⟩
    · obtain ⟨s, hs, -⟩ := hdeadlock.database key hkey
      exact (hmember hkey s hs).imp And.left And.left
    · rcases hmember hkey s hs with ⟨-, hdead⟩ | ⟨-, hmem⟩
      · exact hdead
      · exact absurd (hroot ▸ hmem) List.not_mem_nil
  case adopted =>
    intro chain key σ s σ' index d types failures hwalked h
    obtain ⟨hend, hrefused⟩ := hwalked.refused hdeadlock h
    have hother (hkey : members key) : False := absurd (hrefused hkey).1 nofun
    exact ⟨hend.modify (fun _ => rfl) hwalked.get?_end hwalked.evolves_adopt fun hkey =>
      (hother hkey).elim, fun hkey => (hother hkey).elim, fun _ hkey => (hother hkey).elim⟩
  case pending =>
    intro chain key σ s σ' failures hwalked hpending h
    obtain ⟨hend, hrefused⟩ := hwalked.refused hdeadlock h
    have hother (hkey : members key) : False := absurd hpending (by simp [(hrefused hkey).2])
    have hfell : Waits source members (σ'.modify key .fallBack) :=
      hend.modify (fun _ => rfl) hwalked.get?_end (.fellBack hwalked.flagged) fun hkey =>
        (hother hkey).elim
    refine ⟨hfell.of_table (Sweep.table_remember _ _ _) fun other hmember hmem => ?_,
      fun hkey => (hother hkey).elim, fun _ hkey => (hother hkey).elim⟩
    rcases Sweep.mem_pending_remember.1 hmem with hmem | ⟨rfl, -⟩
    · exact hfell.forgotten other hmember hmem
    · exact hother hmember
  case blocked =>
    intro chain key σ s σ' failures hwalked _ _ hchain h
    exact ⟨(hwalked.refused hdeadlock h).1, fun _ => Or.inr rfl, fun hroot => absurd hroot hchain⟩
  case undefined =>
    intro chain key σ s hwalk _ hdatabase h
    obtain ⟨hget, hflag, -, -⟩ := toWalk_eq_ok_iff.1 hwalk
    have hother (hkey : members key) : False := by
      obtain ⟨t, ht, -, ht_database⟩ := hdeadlock.database key hkey
      obtain rfl : t = s := Option.some.inj (ht.symm.trans (h.get?_source hkey hget hflag))
      exact absurd ht_database (by simp [hdatabase])
    have hvisit : Waits source members (σ.visit chain) := h.of_table rfl h.forgotten
    exact ⟨hvisit.modify (f := .waitForDefinition) (fun _ => rfl) hget
      (.settled hflag rfl rfl fun _ h => h.waitForDefinition) fun hkey => (hother hkey).elim,
      fun hkey => (hother hkey).elim, fun _ hkey => (hother hkey).elim⟩
  case dead =>
    intro chain key σ s σ' failures hwalked _ _ _ h
    have hsource (hkey : members key) := h.get?_source hkey hwalked.get?_eq hwalked.flagged
    refine ⟨(hwalked.refused hdeadlock h).1.modify (f := .markDead) (fun _ => rfl) hwalked.get?_end
      (.settled hwalked.flagged rfl rfl fun _ h => h.markDead) fun hkey => ⟨hsource hkey, rfl⟩,
      fun _ => Or.inl rfl, fun _ hkey t ht => ?_⟩
    obtain rfl : s = t := Option.some.inj ((hsource hkey).symm.trans ht)
    exact hwalked.get?_modify fun _ => rfl

end Resolving

/-! ## Updates

Every member is the root of an attempt at some time of the sweep, unless it was given up before. -/

namespace SymbolTable

variable {table : SymbolTable} {members : SymbolKey → Prop} {key : SymbolKey} {s : StorySymbol}

/-- After a sweep all members of a deadlock are given up. -/
theorem IsDeadlock.sweep (h : table.IsDeadlock members)
    (hflagged : ∀ key s, members key → table.get? key = some s → s.needsUpdate = true)
    (weights : Weights) (hkey : members key) (hget : table.get? key = some s) :
    (table.sweep weights).table.get? key = some s.markDead := by
  have hstart : Resolving.Waits table members { table } :=
    ⟨.refl table, fun _ _ => List.not_mem_nil, fun _ _ _ hs => Or.inl hs⟩
  have hswept := sweep_induction table weights (P := Resolving.Waits table members)
    (Q := fun key σ => ∀ s, members key → table.get? key = some s →
      σ.table.get? key = some s.markDead) hstart fun key σ hroom hP => ?_
  · exact hswept.2 key (mem_flagged_of_get? hget (hflagged key s hkey hget)) s hkey hget
  · have hrefuses := Resolving.refuses_resolve h hflagged weights table.size key σ hroom hP
    refine ⟨hrefuses.waits, fun s hkey hs => hrefuses.root rfl hkey s hs, fun other hQ s hkey hs => ?_⟩
    -- What was given up has lost its flag and is not touched again.
    exact (evolves_resolve weights table.size key σ hroom).get?_of_unflagged (hQ s hkey hs) rfl

/-- **Deadlocks are given up in the first sweep.** Where all symbols without declaration are flagged,
one update gives up each of some databases that are filled from each other only. The first sweep does
it, and the second changes them no more. A parameter of such a database has the type on which its
definitions agree. -/
theorem deadlocks_are_given_up (table : SymbolTable) (weights : Weights)
    (members : SymbolKey → Prop) (hdeadlock : table.IsDeadlock members)
    (hflagged : ∀ s ∈ table.symbols, s.isSystem = false → s.needsUpdate = true) :
    ∀ key s, members key → table.get? key = some s →
      ∃ t, (table.sweep weights).table.get? key = some t
        ∧ (table.update weights).1.get? key = some t
        ∧ t.resolution = .dead
        ∧ t.parameters.length = s.parameters.length
        ∧ ∀ index p, t.parameters[index]? = some p → s.AgreesOn index p.type := by
  intro key s hkey hget
  have hswept := hdeadlock.sweep (fun key s hkey hget => ?_) weights hkey hget
  · refine ⟨s.markDead, hswept, ?_, s.resolution_markDead, s.length_parameters_markDead,
      fun index p hp => StorySymbol.type_markDead hp⟩
    rw [get?_update, (evolves_sweep _ weights).get?_of_unflagged hswept rfl]
    rfl
  · obtain ⟨t, ht, hsystem, -⟩ := hdeadlock.database key hkey
    obtain rfl : t = s := Option.some.inj (ht.symm.trans hget)
    exact hflagged t (mem_symbols_of_get? hget) hsystem

/-- A condition that reads a database. -/
def consulted (start : Nat) (source : ParameterSource) : SymbolDefinition :=
  { written start source with access := .read }

/-- A web of three databases and one that nothing fills, with another in front that copies one of
them. What reads them states one type for `DB_A`, two for `DB_B` and none for `DB_C`. -/
def web : SymbolTable :=
  ⟨[database "DB_Outside" [copied 1 "DB_B"],
    database "DB_A" [copied 1 "DB_B", copied 2 "DB_C", consulted 3 (.explicit .integer)],
    database "DB_B" [consulted 1 (.explicit .integer), copied 2 "DB_C",
      consulted 3 (.explicit .string)],
    database "DB_C" [copied 1 "DB_A", copied 2 "DB_Empty"],
    database "DB_Empty" [consulted 1 .unknown]]⟩

/-- The databases of the web. -/
def webbed : List SymbolKey := [⟨"DB_A", 1⟩, ⟨"DB_B", 1⟩, ⟨"DB_C", 1⟩, ⟨"DB_Empty", 1⟩]

theorem web_isDeadlock : web.IsDeadlock (· ∈ webbed) := by
  constructor
  · intro key hkey
    have hdatabases : ∀ key ∈ webbed,
        (web.get? key).any fun s => !s.isSystem && s.isDatabase := by decide
    have hdatabase := hdatabases key hkey
    cases hget : web.get? key with
    | none => simp [hget] at hdatabase
    | some s => simpa [hget] using hdatabase
  · intro key s d hkey hget hd hwrite
    have hcopies : ∀ key ∈ webbed, ∀ s ∈ (web.get? key).toList, ∀ d ∈ s.definitions,
        d.access = .write → d.isPartial = false ∧ d.references ≠ [] := by decide
    have hmembers : ∀ key ∈ webbed, ∀ s ∈ (web.get? key).toList, ∀ d ∈ s.definitions,
        ∀ other ∈ d.references, other ∈ webbed := by decide
    have hs := Option.mem_toList.2 hget
    obtain ⟨hwhole, hrefers⟩ := hcopies key hkey s hs d hd hwrite
    exact ⟨hwhole, hrefers, hmembers key hkey s hs d hd⟩

theorem web_is_given_up :
    ((web.update []).1.get? ⟨"DB_B", 1⟩).map (·.resolution) = some .dead := by
  obtain ⟨t, -, hget, hdead, -⟩ := deadlocks_are_given_up web [] _ web_isDeadlock (by decide)
    ⟨"DB_B", 1⟩ _ (by simp [webbed]) rfl
  rw [hget]
  exact congrArg some hdead

end SymbolTable

end StoryCheck
