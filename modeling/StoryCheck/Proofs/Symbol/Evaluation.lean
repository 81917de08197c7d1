import Mathlib.Data.Finset.Card
import StoryCheck.Proofs.Symbol.Acyclic
import StoryCheck.Proofs.Symbol.Alike
import StoryCheck.Proofs.Symbol.Built
import StoryCheck.Proofs.Symbol.Deadlocks
import StoryCheck.Proofs.Symbol.Reanalysis
import StoryCheck.Proofs.Symbol.SettledUpdate
import StoryCheck.Proofs.Symbol.Visits

/-!
# Inference without circles

Where the symbols to which candidates refer never lead back, types could be found by plain recursion:
to judge a symbol, judge those that its candidates refer to. There would be no chain, nothing to
remember and no second sweep. This module says that an update comes to what that recursion gives.

* **`evaluate`**, **`evaluation`** — the recursion, one step of it and to some depth.
* **`Consults`** — who is judged for whose judgement. Without circles, `height` goes down along it,
  so there is a depth at which the recursion has reached its end (`evaluate_evaluation`).
* **`ComesTo`** — what an update makes of a symbol with a judgement.
* **`update_eq_evaluation`** — the two agree.
-/

namespace StoryCheck

open Relation Syntax

/-! ## The recursion

The recursion judges a symbol by the judgements of those that its candidates refer to. It knows
neither tables that change nor chains. Where nothing consults itself it ends, and the number of
symbols bounds its depth. -/

/-- The candidates of a symbol by the weight of their goal and their place in it. -/
def StorySymbol.choices (s : StorySymbol) (weights : Weights) : List SymbolDefinition :=
  (s.definitions.filter fun d => !s.isDatabase || d.access == .write).mergeSort
    (SymbolDefinition.ranksBefore weights)

/-- The candidates by weight, with the order spelled out. -/
theorem StorySymbol.choices_eq (s : StorySymbol) (weights : Weights) :
    s.choices weights = s.ranked weights :=
  (s.ranked_eq weights).symm

namespace SymbolTable

/-- A symbol judged by what is said of the symbols that its candidates refer to. -/
def evaluate (table : SymbolTable) (weights : Weights) (view : View) : View := fun key =>
  match table.get? key with
  | none => .dead
  | some s =>
    if s.isSystem then .declared (s.parameters.map (·.type))
    else view.judge s.isDatabase (s.choices weights)

/-- The recursion to some depth. -/
def evaluation (table : SymbolTable) (weights : Weights) : (depth : Nat) → View
  | 0 => fun _ => .dead
  | depth + 1 => table.evaluate weights (table.evaluation weights depth)

/-- A candidate of the one symbol takes a type from the other. -/
def Consults (table : SymbolTable) (weights : Weights) (key other : SymbolKey) : Prop :=
  ∃ s, table.get? key = some s ∧ ∃ d ∈ s.choices weights, other ∈ d.references

end SymbolTable

namespace StorySymbol

/-- A symbol has adopted nothing, and has the types on which its definitions agree. -/
structure FallsBackTo (s t : StorySymbol) : Prop where
  canonical : t.canonicalDefinition? = none
  names : t.parameterNames = s.parameterNames
  parameters : ∀ index p, t.parameters[index]? = some p →
    s.AgreesOn index p.type ∧ p.origin = none

/-- What a symbol has become, given its judgement. -/
inductive ComesTo (s t : StorySymbol) : Judgement → Prop where
  | declared (hsame : t = s) (hresolved : t.resolution = .resolved) :
      ComesTo s t (.declared (s.parameters.map (·.type)))
  | adopts {d : SymbolDefinition} {types : List (ValueType × Option ParameterRef)}
      (hresolved : t.resolution = .resolved) (hcanonical : t.canonicalDefinition? = some d)
      (hparameters : t.parameters.map (fun p => (p.name, p.type, p.origin))
        = List.zipWith (fun p found => (p.name, found)) d.parameters types) :
      ComesTo s t (.adopts d types)
  | pending (hpending : t.resolution = .pending) (hfallen : s.FallsBackTo t) : ComesTo s t .pending
  | dead (hdead : t.resolution = .dead) (hfallen : s.FallsBackTo t) : ComesTo s t .dead

/-- What resolution says of a symbol. -/
def result (s : StorySymbol) : Resolution × Option SymbolDefinition × List SymbolParameter :=
  (s.resolution, s.canonicalDefinition?, s.parameters)

variable {s t u : StorySymbol}

/-- What a symbol shows after it has adopted a definition. -/
theorem triples_adopt (s : StorySymbol) (index : Nat) (d : SymbolDefinition)
    (types : List (ValueType × Option ParameterRef)) :
    (s.adopt index d types).parameters.map (fun p => (p.name, p.type, p.origin))
      = List.zipWith (fun p found => (p.name, found)) d.parameters types := by
  let typed := types.zip (d.parameters.map (·.name))
  have hplaces : (s.adopt index d types).parameters.map (fun p => (p.name, p.type, p.origin))
      = (typed.zipIdx.map (·.1)).map fun (found, name) => (name, found) := by
    unfold adopt
    dsimp only
    rw [List.map_map, List.map_map]
    rfl
  rw [hplaces, List.zipIdx_map_fst]
  simp only [typed, List.zip, List.map_zipWith, List.zipWith_map_right]
  exact List.zipWith_comm ..

/-- A symbol that falls back and keeps its names falls back as it should. -/
theorem fallsBackTo_of_fallBack (hevidence : t.evidence = s.evidence) (hfallen : t.fallBack = t)
    (hnames : t.parameterNames = s.parameterNames) : s.FallsBackTo t where
  canonical := by
    rw [← hfallen]
    rfl
  names := hnames
  parameters index p hp := by
    rw [← hfallen, getElem?_parameters_fallBack] at hp
    obtain ⟨q, -, rfl⟩ := Option.map_eq_some_iff.1 hp
    refine ⟨?_, rfl⟩
    have hstated : t.explicitTypes index = s.explicitTypes index := by
      unfold explicitTypes
      rw [definitions_eq_of_evidence hevidence]
    rw [hstated]
    exact s.agreesOn_agreedType index

/-- What shows a judgement has come to it. -/
theorem Shows.comesTo {j : Judgement} (h : t.Shows j) (hj : ∀ types, j ≠ .declared types)
    (hevidence : t.evidence = s.evidence)
    (hnames : t.canonical = none → t.parameterNames = s.parameterNames) : s.ComesTo t j := by
  have hwaits (hfallen : t.fallBack = t) : s.FallsBackTo t := by
    refine fallsBackTo_of_fallBack hevidence hfallen (hnames ?_)
    rw [← hfallen]
    rfl
  cases j with
  | declared types => exact absurd rfl (hj types)
  | adopts d types =>
    obtain ⟨index, hd, hadopt⟩ := h
    refine .adopts ?_ ?_ ?_
    · rw [← hadopt]
      exact t.resolution_adopt index d types
    · rw [← hadopt]
      exact hd
    · rw [← hadopt]
      exact t.triples_adopt index d types
  | pending => exact .pending h.1 (hwaits h.2)
  | dead => exact .dead h.1 (hwaits h.2)

/-- Two symbols that have fallen back from the same definitions show the same. -/
theorem result_eq_of_fallen (ht : t.fallBack = t) (hu : u.fallBack = u)
    (hdefinitions : t.definitions = u.definitions) (hnames : t.parameterNames = u.parameterNames)
    (hresolution : t.resolution = u.resolution) : t.result = u.result := by
  have hcanonical {v : StorySymbol} (hv : v.fallBack = v) : v.canonicalDefinition? = none := by
    rw [← hv]
    rfl
  have hlength : t.parameters.length = u.parameters.length := by
    simpa [parameterNames] using congrArg List.length hnames
  have hunnamed : t.unnamed = u.unnamed := by
    rw [← ht, ← hu]
    exact unnamed_fallBack_congr hdefinitions hlength
  have hparameters : t.parameters = u.parameters := SymbolParameter.eq_of_unnamed hnames hunnamed
  unfold result
  rw [hresolution, hcanonical ht, hcanonical hu, hparameters]

/-- Two symbols that have adopted the same definition show the same, wherever it stands among their
definitions. -/
theorem result_eq_of_adopted {m n : Nat} {d : SymbolDefinition}
    {types : List (ValueType × Option ParameterRef)} (hm : t.definitions[m]? = some d)
    (hn : u.definitions[n]? = some d) (ht : t.adopt m d types = t) (hu : u.adopt n d types = u)
    (hdefinitions : t.definitions = u.definitions) : t.result = u.result := by
  have hadopted {v : StorySymbol} {index : Nat} (hd : v.definitions[index]? = some d)
      (hv : v.adopt index d types = v) :
      v.resolution = .resolved ∧ v.canonicalDefinition? = some d := by
    rw [← hv]
    exact ⟨v.resolution_adopt index d types, hd⟩
  have hparameters : t.parameters = u.parameters := by
    rw [← ht, ← hu]
    exact parameters_adopt_congr hdefinitions m n d types
  obtain ⟨ht_resolved, ht_canonical⟩ := hadopted hm ht
  obtain ⟨hu_resolved, hu_canonical⟩ := hadopted hn hu
  unfold result
  rw [ht_resolved, hu_resolved, ht_canonical, hu_canonical, hparameters]

/-- Two symbols that show one judgement differ at most in the place of the definition that they
adopted. -/
theorem Shows.result_eq {j : Judgement} (ht : t.Shows j) (hu : u.Shows j)
    (hj : ∀ types, j ≠ .declared types) (hdefinitions : t.definitions = u.definitions)
    (hnames : t.canonical = none → u.canonical = none → t.parameterNames = u.parameterNames) :
    t.result = u.result := by
  have hcanonical {v : StorySymbol} (hv : v.fallBack = v) : v.canonical = none := by
    rw [← hv]
    rfl
  cases j with
  | declared types => exact absurd rfl (hj types)
  | adopts d types =>
    obtain ⟨m, hm, ht⟩ := ht
    obtain ⟨n, hn, hu⟩ := hu
    exact result_eq_of_adopted hm hn ht hu hdefinitions
  | pending | dead =>
    exact result_eq_of_fallen ht.2 hu.2 hdefinitions (hnames (hcanonical ht.2) (hcanonical hu.2))
      (ht.1.trans hu.1.symm)

end StorySymbol

/-! ## Depth

How far the recursion has to go down for a symbol is the number of symbols that are involved in its
judgement. Without circles fewer are involved for each that is consulted. -/

namespace SymbolTable

variable {table other : SymbolTable} {weights : Weights} {key target : SymbolKey} {s t : StorySymbol}

open Classical in
/-- The symbols to which one comes by following references, from where one starts. -/
noncomputable def involved (table : SymbolTable) (weights : Weights) (key : SymbolKey) :
    Finset SymbolKey :=
  table.keys.toFinset.filter fun other => ReflTransGen (table.Consults weights) key other

open Classical in

/-- Involved is what can be reached by consulting. -/
theorem mem_involved :
    target ∈ table.involved weights key
      ↔ target ∈ table.keys ∧ ReflTransGen (table.Consults weights) key target := by
  rw [involved, Finset.mem_filter, List.mem_toFinset]

/-- Number of symbols that have a part in the judgement of one. -/
noncomputable def height (table : SymbolTable) (weights : Weights) (key : SymbolKey) : Nat :=
  (table.involved weights key).card

open Classical in

/-- No more symbols are involved than there are. -/
theorem height_le_size (table : SymbolTable) (weights : Weights) (key : SymbolKey) :
    table.height weights key ≤ table.size := by
  rw [size_eq_length_keys]
  exact (Finset.card_filter_le _ _).trans (List.toFinset_card_le _)

/-- Fewer symbols are involved in what is consulted, for the symbol itself is not. -/
theorem height_lt (hacyclic : ∀ key, ¬ TransGen (table.Consults weights) key key)
    (h : table.Consults weights key target) :
    table.height weights target < table.height weights key := by
  refine Finset.card_lt_card (Finset.ssubset_iff_subset_ne.2 ⟨fun other hother => ?_, fun heq => ?_⟩)
  · obtain ⟨hmem, hpath⟩ := mem_involved.1 hother
    exact mem_involved.2 ⟨hmem, hpath.head h⟩
  · -- The symbol itself is not among those to which its references lead.
    have hkey : key ∈ table.keys := by
      obtain ⟨s, hget, -⟩ := h
      exact mem_keys_of_get? hget
    have hself : key ∈ table.involved weights target := heq ▸ mem_involved.2 ⟨hkey, .refl⟩
    exact hacyclic key (TransGen.head' h (mem_involved.1 hself).2)

/-- So the table is ranked by how many are involved. -/
theorem isRankedBy_height (hnodup : table.keys.Nodup)
    (hacyclic : ∀ key, ¬ TransGen (table.Consults weights) key key) :
    table.IsRankedBy weights (table.height weights) := by
  intro s hs d hd other hother
  have hchoice : d ∈ s.choices weights := s.choices_eq weights ▸ (leading_sublist _).subset hd
  exact Or.inr (height_lt hacyclic ⟨s, get?_of_mem hnodup hs, d, hchoice, hother⟩)

/-- A step of the recursion only asks for those whom a symbol consults. -/
theorem evaluate_congr {view view' : View}
    (h : ∀ other, table.Consults weights key other → view other = view' other) :
    table.evaluate weights view key = table.evaluate weights view' key := by
  unfold evaluate
  cases hget : table.get? key with
  | none => rfl
  | some s =>
    dsimp only
    split
    · rfl
    · refine View.judge_congr _ fun d hd other hother => h other ⟨s, hget, d, ?_, hother⟩
      exact (leading_sublist _).subset hd

/-- From the height of a symbol on, more depth does not change its judgement. -/
theorem evaluation_eq (hacyclic : ∀ key, ¬ TransGen (table.Consults weights) key key)
    {depth depth' : Nat} (hdepth : table.height weights key < depth)
    (hdepth' : table.height weights key < depth') :
    table.evaluation weights depth key = table.evaluation weights depth' key := by
  -- What a symbol consults has less height, so one less of depth is enough for it.
  induction depth generalizing key depth' with
  | zero => exact absurd hdepth (Nat.not_lt_zero _)
  | succ depth ih =>
    cases depth' with
    | zero => exact absurd hdepth' (Nat.not_lt_zero _)
    | succ depth' =>
      refine evaluate_congr fun other hother => ?_
      have hless := height_lt hacyclic hother
      exact ih (by omega) (by omega)

/-- The recursion has come to its end. -/
theorem evaluate_evaluation (hacyclic : ∀ key, ¬ TransGen (table.Consults weights) key key)
    (key : SymbolKey) :
    table.evaluate weights (table.evaluation weights (table.size + 1)) key
      = table.evaluation weights (table.size + 1) key := by
  have hheight := table.height_le_size weights key
  show table.evaluation weights (table.size + 2) key = _
  exact evaluation_eq hacyclic (by omega) (by omega)

/-! ## An update comes to the evaluation

The evaluation is a fixed point, and an update settles each symbol by the same rule with the
verdicts on others that it finds. As both agree on what a symbol consults, they agree on the symbol;
the induction is on heights and has been done once for all updates of ranked tables. -/

/-- A table in order is one on which updates are understood. -/
theorem InOrder.orderly (h : table.InOrder) : table.Orderly where
  declared hget := (h.symbol hget).declared
  flagged hget := (h.symbol hget).flagged

/-- A symbol consults those it waits for. -/
theorem WaitsFor.consults (h : table.WaitsFor weights key target) :
    table.Consults weights key target := by
  obtain ⟨s, hget, -, htarget⟩ := h
  obtain ⟨candidate, hcandidate, htarget⟩ := StorySymbol.mem_followed.1 htarget
  refine ⟨s, hget, candidate.2, ?_, htarget⟩
  rw [StorySymbol.choices_eq]
  exact List.mem_map_of_mem hcandidate

/-- The judgement of a symbol that no header declares. -/
theorem evaluate_of_inferred {view : View} (hget : table.get? key = some s)
    (hinferred : s.isSystem = false) :
    table.evaluate weights view key = view.judge s.isDatabase (s.ranked weights) := by
  simp [evaluate, hget, hinferred, StorySymbol.choices_eq]

/-- The evaluation settles every symbol. -/
noncomputable def InOrder.settling (h : table.InOrder)
    (hacyclic : ∀ key, ¬ TransGen (table.Consults weights) key key) : table.Settling weights :=
  (isRankedBy_height h.nodup hacyclic).settling (table.evaluation weights (table.size + 1))
    (fun {key} hnone => by simp [evaluation, evaluate, hnone])
    (fun {key s} hget hsystem => by simp [evaluation, evaluate, hget, hsystem])
    fun {key s} hget hinferred => by
      rw [← evaluate_evaluation hacyclic, evaluate_of_inferred hget hinferred]
      -- Nothing refers to itself, so it makes no difference what a symbol sees of itself.
      refine View.judge_congr _ fun d hd other hother => ?_
      have hne : other ≠ key := by
        rintro rfl
        refine hacyclic other (.single ⟨s, hget, d, ?_, hother⟩)
        exact s.choices_eq weights ▸ (leading_sublist _).subset hd
      rw [View.seenBy, if_neg hne]

/-- What an update comes to, symbol by symbol. -/
theorem InOrder.shows_evaluation (h : table.InOrder)
    (hflagged : ∀ s ∈ table.symbols, s.isSystem = false → s.needsUpdate = true)
    (hacyclic : ∀ key, ¬ TransGen (table.Consults weights) key key)
    (ht : (table.update weights).1.get? key = some t) :
    t.Shows (table.evaluation weights (table.size + 1) key) := by
  refine shows_update h.orderly (h.settling hacyclic) (fun key s _ hget hsettled => ?_) trivial ht
  have hsystem : s.isSystem = true := by
    by_contra hinferred
    have hflag := hflagged s (mem_symbols_of_get? hget) (by simpa using hinferred)
    exact absurd hflag (by simp [hsettled])
  have hdead := ((h.symbol hget).declared hsystem).1
  rw [(h.settling hacyclic).declared trivial hget hsystem]
  exact ⟨by simp [StorySymbol.resolution, hsystem, hdead], rfl⟩

/-- A symbol that adopted nothing keeps the names of its parameters. -/
theorem InOrder.parameterNames_update (h : table.InOrder) (hs : table.get? key = some s)
    (ht : (table.update weights).1.get? key = some t) (hcanonical : t.canonical = none)
    (hflag : s.needsUpdate = true) : t.parameterNames = s.parameterNames := by
  rw [get?_update] at ht
  obtain ⟨u, hu, rfl⟩ := Option.map_eq_some_iff.1 ht
  have hnamed := (comesFrom_sweeps (fun hget hflag => ((h.symbol hget).flagged hflag).2)
    weights).1.named hs hflag hu
  exact hnamed.kept hcanonical

/-- A table in another order has the same keys. -/
theorem keys_perm (hperm : other.symbols.Perm table.symbols) : other.keys.Perm table.keys :=
  hperm.map _

/-- A table in another order has the same symbols under its keys. -/
theorem get?_perm (hnodup : table.keys.Nodup) (hperm : other.symbols.Perm table.symbols) :
    other.get? key = table.get? key := by
  have hnodup' : other.keys.Nodup := (keys_perm hperm).nodup_iff.2 hnodup
  cases hs : table.get? key with
  | none =>
    rw [get?_eq_none_iff] at hs ⊢
    exact fun hmem => hs ((keys_perm hperm).mem_iff.1 hmem)
  | some s =>
    have hmem := hperm.mem_iff.2 (mem_symbols_of_get? hs)
    rw [← key_of_get? hs]
    exact get?_of_mem hnodup' hmem

/-- A table in another order is evaluated alike. -/
theorem evaluation_perm (hnodup : table.keys.Nodup) (hperm : other.symbols.Perm table.symbols)
    (depth : Nat) : other.evaluation weights depth = table.evaluation weights depth := by
  -- Every step of the recursion looks up symbols and nothing else.
  induction depth with
  | zero => rfl
  | succ depth ih =>
    funext key
    simp only [evaluation, evaluate, ih, get?_perm hnodup hperm]

/-- A table in another order is in order if the first one is. -/
theorem InOrder.perm (h : table.InOrder) (hperm : other.symbols.Perm table.symbols) :
    other.InOrder where
  nodup := (keys_perm hperm).nodup_iff.2 h.nodup
  symbol hget := h.symbol (get?_perm h.nodup hperm ▸ hget)

/-- An update of the same symbols in another order comes to the same. -/
theorem InOrder.result_update_perm (h : table.InOrder)
    (hflagged : ∀ s ∈ table.symbols, s.isSystem = false → s.needsUpdate = true)
    (hacyclic : ∀ key, ¬ TransGen (table.Consults weights) key key)
    (hperm : other.symbols.Perm table.symbols) (key : SymbolKey) :
    ((other.update weights).1.get? key).map StorySymbol.result
      = ((table.update weights).1.get? key).map StorySymbol.result := by
  have hother := h.perm hperm
  -- Lookup does not depend on the order of the table, and neither does what a symbol consults.
  have hlookup (key : SymbolKey) : other.get? key = table.get? key := get?_perm h.nodup hperm
  have hconsults : other.Consults weights = table.Consults weights := by
    funext key target
    simp only [Consults, hlookup]
  have hsize : other.size = table.size := hperm.length_eq
  cases hs : table.get? key with
  | none =>
    have hnone {start : SymbolTable} (hget : start.get? key = none) :
        (start.update weights).1.get? key = none := by
      rw [← Option.not_isSome_iff_eq_none, isSome_update, hget]
      decide
    rw [hnone hs, hnone ((hlookup key).trans hs)]
  | some s =>
    have hs' := (hlookup key).trans hs
    cases hflag : s.needsUpdate with
    | false => rw [get?_update_of_unflagged hs hflag, get?_update_of_unflagged hs' hflag]
    | true =>
      obtain ⟨t, ht, hst⟩ := (table.evolves_update weights).symbol hs
      obtain ⟨u, hu, hsu⟩ := (other.evolves_update weights).symbol hs'
      rw [ht, hu]
      have ht_shows := h.shows_evaluation hflagged hacyclic ht
      have hu_shows := hother.shows_evaluation
        (fun s hmem => hflagged s (hperm.mem_iff.1 hmem)) (hconsults ▸ hacyclic) hu
      rw [evaluation_perm h.nodup hperm, hsize] at hu_shows
      refine congrArg some (hu_shows.result_eq ht_shows (fun types => ?_)
        (StorySymbol.definitions_eq_of_evidence (hsu.evidence_eq.trans hst.evidence_eq.symm))
        fun hu_none ht_none => ?_)
      · have hinferred := (h.orderly.resolution_eq hs hflag).1
        rw [← evaluate_evaluation hacyclic, evaluate_of_inferred hs hinferred]
        exact View.judge_ne_declared types
      · rw [hother.parameterNames_update hs' hu hu_none hflag,
          h.parameterNames_update hs ht ht_none hflag]

/-- **Without circles an update is the plain recursion.** Take any table that declarations and steps
lead to, all of whose undeclared symbols are flagged, and in which references of candidates never
lead back. The recursion comes to an end; the update makes of every symbol what the recursion says;
the order of the symbols in the table makes no difference; and there are at most twice as many walks
as flagged symbols. -/
theorem update_eq_evaluation (table : SymbolTable) (weights : Weights) (hbuilt : table.IsBuilt)
    (hflagged : ∀ s ∈ table.symbols, s.isSystem = false → s.needsUpdate = true)
    (hacyclic : ∀ key, ¬ TransGen (table.Consults weights) key key) :
    let view := table.evaluation weights (table.size + 1)
    (∀ key, view key = table.evaluate weights view key)
      ∧ (∀ key s, table.get? key = some s →
        ∃ t, (table.update weights).1.get? key = some t ∧ s.ComesTo t (view key))
      ∧ (∀ other : SymbolTable, other.symbols.Perm table.symbols → ∀ key,
        ((other.update weights).1.get? key).map StorySymbol.result
          = ((table.update weights).1.get? key).map StorySymbol.result)
      ∧ (table.update weights).2.visits ≤ 2 * table.flagged.length := by
  intro view
  have h := hbuilt.inOrder
  refine ⟨fun key => (evaluate_evaluation hacyclic key).symm, ?symbols,
    fun other hperm => h.result_update_perm hflagged hacyclic hperm, ?walks⟩
  case symbols =>
    intro key s hs
    cases hsystem : s.isSystem with
    | true =>
      -- A declared symbol is not flagged, and the update leaves it alone.
      obtain ⟨hdead, hsettled⟩ := (h.symbol hs).declared hsystem
      refine ⟨s, get?_update_of_unflagged hs hsettled, ?_⟩
      have hview : view key = .declared (s.parameters.map (·.type)) :=
        (h.settling hacyclic).declared trivial hs hsystem
      rw [hview]
      exact .declared rfl (by simp [StorySymbol.resolution, hsystem, hdead])
    | false =>
      have hflag := hflagged s (mem_symbols_of_get? hs) hsystem
      obtain ⟨t, ht, hst⟩ := (table.evolves_update weights).symbol hs
      refine ⟨t, ht, (h.shows_evaluation hflagged hacyclic ht).comesTo (fun types => ?_)
        hst.evidence_eq fun hcanonical => h.parameterNames_update hs ht hcanonical hflag⟩
      rw [← evaluate_evaluation hacyclic, evaluate_of_inferred hs hsystem]
      exact View.judge_ne_declared types
  case walks =>
    have hfree : table.IsFree weights fun _ => true :=
      ⟨fun _ _ => rfl, fun {key} _ hcircle =>
        hacyclic key (hcircle.lift id fun _ _ => WaitsFor.consults)⟩
    exact visits_update_le_of_forall_free hfree fun _ _ => rfl

/-- A database that a section fills, and one that a rule copies from it. -/
def copiedSection : SymbolTable :=
  (TableStep.addGoal "G" {} (Sketch.goal [Sketch.call 1 "DB_X" [.integer 7]]
    [Sketch.rule (Sketch.call 2 "DB_X" [.name "_v"]) [] [Sketch.call 3 "DB_Y" [.name "_v"]]] [])).apply
    {}

/-- A section that was copied is evaluated with few visits. -/
theorem copiedSection_is_evaluated :
    (∃ t, (copiedSection.update []).1.get? ⟨"DB_Y", 1⟩ = some t ∧ t.resolution = .resolved)
      ∧ (copiedSection.update []).2.visits ≤ 4 := by
  have hbuilt : copiedSection.IsBuilt := .step .empty _
  have hflagged : ∀ s ∈ copiedSection.symbols, s.isSystem = false → s.needsUpdate = true := by
    decide +kernel
  -- The second database is copied from the first, so that going by place no circle is found.
  let rank (key : SymbolKey) : Nat := ["DB_X", "DB_Y"].idxOf key.name
  have hchecked : (copiedSection.symbols.all fun s => (s.choices []).all fun d =>
      d.references.all fun other => decide (rank other < rank s.key)) = true := by cbv
  have hacyclic : ∀ key, ¬ TransGen (copiedSection.Consults []) key key := by
    refine not_transGen_self rank ?_
    rintro key other ⟨s, hget, d, hd, hother⟩
    have hsymbol := List.all_eq_true.1 hchecked s (mem_symbols_of_get? hget)
    have hless := List.all_eq_true.1 (List.all_eq_true.1 hsymbol d hd) other hother
    rw [key_of_get? hget] at hless
    exact of_decide_eq_true hless
  obtain ⟨-, hsymbols, -, hvisits⟩ :=
    update_eq_evaluation copiedSection [] hbuilt hflagged hacyclic
  have hsome : (copiedSection.get? ⟨"DB_Y", 1⟩).isSome = true := by decide +kernel
  have htyped : (copiedSection.evaluation [] (copiedSection.size + 1) ⟨"DB_Y", 1⟩).isTyped = true := by
    cbv
  have hlength : copiedSection.flagged.length = 2 := by decide +kernel
  obtain ⟨s, hs⟩ := Option.isSome_iff_exists.1 hsome
  obtain ⟨t, ht, hcomes⟩ := hsymbols ⟨"DB_Y", 1⟩ s hs
  refine ⟨⟨t, ht, ?_⟩, by rwa [hlength] at hvisits⟩
  generalize copiedSection.evaluation [] (copiedSection.size + 1) ⟨"DB_Y", 1⟩ = j at htyped hcomes
  cases hcomes with
  | declared _ hresolved | adopts hresolved => exact hresolved
  | pending | dead => cases htyped

end SymbolTable

end StoryCheck
