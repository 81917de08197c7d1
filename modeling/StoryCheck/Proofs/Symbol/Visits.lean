import Mathlib.Algebra.Order.BigOperators.Group.List
import Mathlib.Data.Finset.Card
import Mathlib.Logic.Relation
import StoryCheck.Proofs.Symbol.DeadVerdicts
import StoryCheck.Proofs.Symbol.LostResolution
import StoryCheck.Proofs.Symbol.Termination

/-!
# How often symbols are walked

A walk that settles its symbol, or finds it pending without the chain having a part in that, is the
last of that symbol in a sweep. A walk that meets its own chain leaves nothing behind: the symbol is
walked again from every definition that refers to it.

So the number of walks hangs on the circles. A symbol from which no circle is reached is walked at
most once in a sweep, and one on a circle or in front of one at most once for each path without
repetition that leads to it.

* **`WaitsFor`**, **`IsFree`** — who is walked from whose walk, and sets of symbols from which no
  circle is reached.
* **`walksBelow`** — the walks that start with a symbol outside such a set.
* **`spent`** — the walks so far, together with one for each free symbol that can still be walked. A
  walk of a free symbol is paid for by that symbol.
* **`free_symbols_are_walked_once`** — the bound for a whole update.
* **`symbols_can_be_walked_again`** — two databases on a circle are walked five times.
-/

namespace StoryCheck

/-- There is no circle where ranks go down. -/
theorem not_transGen_self {α : Type} {r : α → α → Prop} (rank : α → Nat)
    (hrank : ∀ a b, r a b → rank b < rank a) (a : α) : ¬ Relation.TransGen r a a := by
  intro hcircle
  have hless : Relation.TransGen (· > ·) (rank a) (rank a) := hcircle.lift rank hrank
  rw [Relation.transGen_eq_self] at hless
  exact Nat.lt_irrefl _ hless

/-- The symbols to which the candidates of a symbol refer, one candidate after the other. -/
def StorySymbol.followed (s : StorySymbol) (weights : Weights) : List SymbolKey :=
  (s.candidates weights).flatMap fun candidate => candidate.2.references

/-- A walk follows the references of the candidates. -/
theorem StorySymbol.mem_followed {s : StorySymbol} {weights : Weights} {other : SymbolKey} :
    other ∈ s.followed weights ↔ ∃ candidate ∈ s.candidates weights, other ∈ candidate.2.references :=
  List.mem_flatMap

/-- What it follows is settled by what goals say. -/
theorem StorySymbol.followed_eq_of_evidence {s t : StorySymbol} (h : s.evidence = t.evidence)
    (weights : Weights) : s.followed weights = t.followed weights := by
  rw [followed, candidates_eq_of_evidence h, followed]

namespace SymbolTable

variable {table : SymbolTable} {weights : Weights} {free : SymbolKey → Bool} {key other : SymbolKey}

/-- The walk of a symbol may come upon another. -/
def WaitsFor (table : SymbolTable) (weights : Weights) (key other : SymbolKey) : Prop :=
  ∃ s, table.get? key = some s ∧ s.needsUpdate = true ∧ other ∈ s.followed weights

/-- Symbols from which only symbols of the same kind are reached, and no circle. -/
structure IsFree (table : SymbolTable) (weights : Weights) (free : SymbolKey → Bool) : Prop where
  closed : ∀ {key other}, free key = true → table.WaitsFor weights key other → free other = true
  acyclic : ∀ {key}, free key = true →
    ¬ Relation.TransGen (table.WaitsFor weights) key key

/-- The symbols among `left` that may be walked when one of them is, each once for every path to it
on which no symbol comes twice. -/
def walksBelow (table : SymbolTable) (weights : Weights) (left : List SymbolKey)
    (key : SymbolKey) : Nat :=
  if key ∈ left then
    match table.get? key with
    | none => 0
    | some s =>
      1 + ((s.followed weights).map fun other =>
        walksBelow table weights (left.filter (· != key)) other).sum
  else 0
termination_by left.length
decreasing_by
  have hless : (left.filter (· != key)).length < left.length :=
    List.length_filter_lt_length_iff_exists.2 ⟨key, ‹key ∈ left›, by simp⟩
  simpa using hless

/-- A symbol that is not left is not walked. -/
theorem walksBelow_of_not_mem {left : List SymbolKey} (h : key ∉ left) :
    table.walksBelow weights left key = 0 := by
  rw [walksBelow, if_neg h]

/-- One that is left is walked, and then those it follows, without itself. -/
theorem walksBelow_of_mem {left : List SymbolKey} {s : StorySymbol} (h : key ∈ left)
    (hget : table.get? key = some s) :
    table.walksBelow weights left key
      = 1 + ((s.followed weights).map
          (table.walksBelow weights (left.filter (· != key)))).sum := by
  rw [walksBelow, if_pos h, hget]

/-- The flagged symbols that are neither free nor on the chain. -/
def tangled (table : SymbolTable) (free : SymbolKey → Bool) (chain : List SymbolKey) :
    List SymbolKey :=
  table.flagged.filter fun key => !free key && !chain.contains key

/-- Tangled are the flagged symbols that are neither free nor on the chain. -/
theorem mem_tangled {chain : List SymbolKey} :
    key ∈ table.tangled free chain ↔ key ∈ table.flagged ∧ free key = false ∧ key ∉ chain := by
  simp [tangled]

/-- A symbol that comes on the chain is tangled no more. -/
theorem tangled_cons {chain : List SymbolKey} :
    table.tangled free (key :: chain) = (table.tangled free chain).filter (· != key) := by
  unfold tangled
  rw [List.filter_filter]
  refine List.filter_congr fun other _ => ?_
  by_cases h : other = key <;> simp [h]

/-- If a rank goes down along the references, every symbol is free. -/
theorem isFree_of_rank {rank : SymbolKey → Nat}
    (hrank : ∀ s ∈ table.symbols, ∀ other ∈ s.followed weights, rank other < rank s.key) :
    table.IsFree weights fun _ => true := by
  refine ⟨fun _ _ => rfl, fun _ => not_transGen_self rank ?_ _⟩
  rintro a b ⟨s, hget, -, hb⟩
  have hless := hrank s (mem_symbols_of_get? hget) b hb
  rwa [key_of_get? hget] at hless

end SymbolTable

/-! ## What can still be walked

A free symbol pays for its walk with the chance to be walked again. So what counts is how many free
symbols can still be walked, and that none can that could not before. -/

namespace Sweep

variable {σ τ : Sweep} {key other : SymbolKey} {free : SymbolKey → Bool} {table : SymbolTable}

/-- A symbol would be walked if it came up now, chains aside. -/
def canWalk (σ : Sweep) (key : SymbolKey) : Bool :=
  (σ.table.get? key).any (fun s => s.needsUpdate) && !σ.pending.contains key

/-- A symbol can be walked if it is there, flagged, and not remembered as pending. -/
theorem canWalk_iff :
    σ.canWalk key = true
      ↔ ∃ s, σ.table.get? key = some s ∧ s.needsUpdate = true ∧ key ∉ σ.pending := by
  unfold canWalk
  cases σ.table.get? key <;> simp

/-- A change of a symbol that sets no flag opens nothing. -/
theorem canWalk_modify {f : StorySymbol → StorySymbol} (hkey : ∀ s, (f s).key = s.key)
    (hflag : ∀ s, (f s).needsUpdate = true → s.needsUpdate = true)
    (h : (σ.modify key f).canWalk other = true) : σ.canWalk other = true := by
  obtain ⟨t, hget, ht, hpending⟩ := canWalk_iff.1 h
  rw [table_modify, SymbolTable.get?_modify hkey] at hget
  split at hget
  · next heq =>
    obtain ⟨s, hs, rfl⟩ := Option.map_eq_some_iff.1 hget
    exact canWalk_iff.2 ⟨s, heq ▸ hs, hflag s ht, hpending⟩
  · exact canWalk_iff.2 ⟨t, hget, ht, hpending⟩

/-- A change that takes the flag off closes the symbol. -/
theorem not_canWalk_modify {f : StorySymbol → StorySymbol} (hkey : ∀ s, (f s).key = s.key)
    (hsettles : ∀ s, (f s).needsUpdate = false) : ¬ (σ.modify key f).canWalk key = true := by
  intro h
  obtain ⟨t, hget, ht, -⟩ := canWalk_iff.1 h
  rw [table_modify, SymbolTable.get?_modify_self hkey] at hget
  obtain ⟨s, -, rfl⟩ := Option.map_eq_some_iff.1 hget
  exact absurd ht (by simp [hsettles])

/-- Remembering a verdict opens nothing. -/
theorem canWalk_remember {failures : Failures}
    (h : (σ.remember key failures).canWalk other = true) : σ.canWalk other = true := by
  obtain ⟨s, hget, hs, hpending⟩ := canWalk_iff.1 h
  rw [table_remember] at hget
  exact canWalk_iff.2 ⟨s, hget, hs, fun hmem => hpending (mem_pending_remember.2 (Or.inl hmem))⟩

/-- Remembering a verdict closes the symbol that it is about. -/
theorem not_canWalk_remember {failures : Failures} (hblocked : failures.blocked = false) :
    ¬ (σ.remember key failures).canWalk key = true := by
  intro h
  obtain ⟨s, -, -, hpending⟩ := canWalk_iff.1 h
  exact hpending (mem_pending_remember.2 (Or.inr ⟨rfl, hblocked⟩))

/-- The free symbols of the table that can still be walked. -/
def openFree (table : SymbolTable) (free : SymbolKey → Bool) (σ : Sweep) : Finset SymbolKey :=
  table.flagged.toFinset.filter fun key => free key = true ∧ σ.canWalk key = true

/-- The walks so far, and one for each free symbol that can still be walked. -/
def spent (table : SymbolTable) (free : SymbolKey → Bool) (σ : Sweep) : Nat :=
  σ.visits + (σ.openFree table free).card

/-- A visit counts as one. -/
theorem spent_visit (chain : List SymbolKey) :
    (σ.visit chain).spent table free = σ.spent table free + 1 := by
  show σ.visits + 1 + (σ.openFree table free).card = σ.visits + (σ.openFree table free).card + 1
  omega

/-- The free symbols that can be walked get fewer. -/
theorem openFree_subset (hopen : ∀ key, τ.canWalk key = true → σ.canWalk key = true) :
    τ.openFree table free ⊆ σ.openFree table free :=
  Finset.monotone_filter_right _ fun key _ h => ⟨h.1, hopen key h.2⟩

/-- Without a visit nothing more is spent. -/
theorem spent_le (hvisits : τ.visits = σ.visits)
    (hopen : ∀ key, τ.canWalk key = true → σ.canWalk key = true) :
    τ.spent table free ≤ σ.spent table free := by
  unfold spent
  rw [hvisits]
  exact Nat.add_le_add_left (Finset.card_le_card (openFree_subset hopen)) _

/-- What can no longer be walked pays for the walk that it had. -/
theorem spent_lt (hvisits : τ.visits = σ.visits)
    (hopen : ∀ key, τ.canWalk key = true → σ.canWalk key = true)
    (hflagged : key ∈ table.flagged) (hfree : free key = true) (hbefore : σ.canWalk key = true)
    (hafter : ¬ τ.canWalk key = true) : τ.spent table free + 1 ≤ σ.spent table free := by
  have hmem : key ∈ σ.openFree table free :=
    Finset.mem_filter.2 ⟨List.mem_toFinset.2 hflagged, hfree, hbefore⟩
  have hgone : key ∉ τ.openFree table free := fun h => hafter (Finset.mem_filter.1 h).2.2
  have hcard := Finset.card_lt_card
    (Finset.ssubset_iff_subset_ne.2 ⟨openFree_subset hopen, fun heq => hgone (heq ▸ hmem)⟩)
  unfold spent
  rw [hvisits]
  omega

end Sweep

/-! ## The cost of a search

The candidates of a symbol are looked at up to the first complete one, and each costs an attempt on
each symbol that it refers to, at most. -/

namespace Resolving

variable {R : SymbolKey → Sweep → Resolution → Sweep → Prop} {σ σ' : Sweep}

/-- The symbols to which parameters refer. -/
def referred (parameters : List DefinitionParameter) : List SymbolKey :=
  parameters.filterMap fun p => match p.source with
    | .reference ref => some ref.symbol
    | _ => none

/-- A parameter that refers to a symbol costs an attempt on it. -/
theorem referred_of_reference {p : DefinitionParameter} {rest : List DefinitionParameter}
    {ref : ParameterRef} (hsource : p.source = .reference ref) :
    referred (p :: rest) = ref.symbol :: referred rest := by
  simp [referred, hsource]

/-- A candidate costs no more than the attempts on the symbols it refers to. -/
theorem Completes.cost_le {measure : Sweep → Nat} {cost : SymbolKey → Nat}
    (hR : ∀ key σ verdict σ', R key σ verdict σ' → measure σ' ≤ measure σ + cost key)
    {parameters : List DefinitionParameter} {c : Completion} (h : Completes R parameters σ c σ') :
    measure σ' ≤ measure σ + ((referred parameters).map cost).sum := by
  -- Parameter by parameter; the loop may break off, and then it costs less.
  induction h with
  | nil => exact Nat.le_add_right _ _
  | @explicit p rest _ _ _ _ hsource _ ih =>
    have hreferred : referred (p :: rest) = referred rest := by simp [referred, hsource]
    rwa [hreferred]
  | unknown => exact Nat.le_add_right _ _
  | typed hsource hattempt _ _ ih =>
    have hfirst := hR _ _ _ _ hattempt
    rw [referred_of_reference hsource, List.map_cons, List.sum_cons]
    omega
  -- An attempt that fails is the last one, and costs no less.
  | untyped hsource hattempt | failed hsource hattempt =>
    have hfirst := hR _ _ _ _ hattempt
    rw [referred_of_reference hsource, List.map_cons, List.sum_cons]
    omega

/-- A search costs no more than an attempt on every symbol that a candidate refers to. -/
theorem Searches.cost_le {measure : Sweep → Nat} {cost : SymbolKey → Nat}
    (hR : ∀ key σ verdict σ', R key σ verdict σ' → measure σ' ≤ measure σ + cost key)
    {candidates : List (Nat × SymbolDefinition)} {failures failures' : Failures}
    {found : Option Adoption} (h : Searches R candidates failures σ found failures' σ') :
    measure σ' ≤ measure σ
      + ((candidates.flatMap fun candidate => candidate.2.references).map cost).sum := by
  induction h with
  | exhausted => exact Nat.le_add_right _ _
  | partly _ _ ih =>
    rw [List.flatMap_cons, List.map_append, List.sum_append]
    omega
  | @complete _ d _ _ _ _ _ _ htypes =>
    have hfirst : _ ≤ _ + (d.references.map cost).sum := htypes.cost_le hR
    rw [List.flatMap_cons, List.map_append, List.sum_append]
    dsimp only
    omega
  | @incomplete _ d _ _ _ _ _ _ _ _ _ htypes _ ih =>
    have hfirst : _ ≤ _ + (d.references.map cost).sum := htypes.cost_le hR
    rw [List.flatMap_cons, List.map_append, List.sum_append]
    dsimp only
    omega

/-- A search is not blocked if none of its attempts is. -/
theorem Searches.not_blocked
    (hR : ∀ key σ verdict σ', R key σ verdict σ' → verdict ≠ .blocked)
    {candidates : List (Nat × SymbolDefinition)} {failures failures' : Failures}
    {found : Option Adoption} (h : Searches R candidates failures σ found failures' σ')
    (hfailures : failures.blocked = false) : failures'.blocked = false := by
  induction h with
  | exhausted | complete => exact hfailures
  | partly _ _ ih => exact ih hfailures
  | @incomplete _ _ _ _ _ _ _ _ _ why _ htypes _ ih =>
    refine ih ?_
    cases why with
    | blocked =>
      obtain ⟨-, -, ref, -, -, _, _, -, hattempt⟩ :=
        htypes.failed_reference (P := fun _ => True) (fun _ _ _ _ _ => id) trivial (by decide)
      exact absurd rfl (hR _ _ _ _ hattempt)
    | resolved | pending | dead => exact hfailures

/-! ## The cost of an attempt

A walk of a free symbol is paid once and for all, since it cannot be walked again in the sweep. A
walk of any other symbol is charged to the attempt that it is made for, with all that is below it. -/

section Attempts

variable {table : SymbolTable} {weights : Weights} {free : SymbolKey → Bool}
  {chain : List SymbolKey} {key : SymbolKey} {σ τ : Sweep} {s : StorySymbol}
  {found : Option Adoption} {failures : Failures} {verdict : Resolution}

/-- What an attempt costs, if every symbol on the chain waits for the one that is attempted. -/
def Charges (table : SymbolTable) (weights : Weights) (free : SymbolKey → Bool)
    (chain : List SymbolKey) (key : SymbolKey) (σ : Sweep) (verdict : Resolution) (σ' : Sweep) :
    Prop :=
  table.Evolves σ.table →
    (∀ walked ∈ chain, Relation.TransGen (table.WaitsFor weights) walked key) →
    σ'.spent table free
        ≤ σ.spent table free + table.walksBelow weights (table.tangled free chain) key
      ∧ (free key = true → verdict ≠ .blocked)

/-- A free symbol that is on the chain would be on a circle. -/
theorem charges_known (hfree : table.IsFree weights free)
    (hlook : toWalk σ chain key = .error verdict) :
    Charges table weights free chain key σ verdict σ := by
  intro _ hchain
  refine ⟨Nat.le_add_right _ _, fun hkey hblocked => ?_⟩
  obtain ⟨-, hdead⟩ | ⟨s, -, ⟨-, hverdict⟩ | ⟨-, -, hpending⟩ | ⟨-, -, hmem, -⟩⟩ :=
    toWalk_eq_error hlook
  · exact absurd (hdead.symm.trans hblocked) (by decide)
  · exact s.resolution_ne_blocked (hverdict.symm.trans hblocked)
  · exact absurd (hpending.symm.trans hblocked) (by decide)
  · exact hfree.acyclic hkey (hchain key hmem)

/-- The cost of a walk up to where its verdict is decided. -/
theorem Walked.spent_le
    (h : Walked (fun other σ verdict σ' => Attempt (key :: chain) other σ verdict σ'
      ∧ Charges table weights free (key :: chain) other σ verdict σ')
      weights chain key σ s found failures σ')
    (hfree : table.IsFree weights free) (hevolves : table.Evolves σ.table)
    (hchain : ∀ walked ∈ chain, Relation.TransGen (table.WaitsFor weights) walked key) :
    key ∈ table.flagged
      ∧ (free key = false → σ'.spent table free
          ≤ σ.spent table free + table.walksBelow weights (table.tangled free chain) key)
      ∧ (free key = true →
          σ'.spent table free ≤ σ.spent table free + 1 ∧ failures.blocked = false) := by
  obtain ⟨s₀, hget₀, hs₀⟩ := hevolves.exists_before h.get?_eq
  have hflag₀ := hs₀.flagged_before h.flagged
  have hflagged : key ∈ table.flagged := SymbolTable.mem_flagged_of_get? hget₀ hflag₀
  have hfollowed : s.followed weights = s₀.followed weights :=
    StorySymbol.followed_eq_of_evidence hs₀.evidence_eq weights
  -- Every attempt in the walk is on a symbol that this one waits for.
  have hwaits {other : SymbolKey} (hother : other ∈ s.followed weights) :
      table.WaitsFor weights key other := ⟨s₀, hget₀, hflag₀, hfollowed ▸ hother⟩
  let pays (other : SymbolKey) (σ : Sweep) (verdict : Resolution) (σ' : Sweep) : Prop :=
    σ'.spent table free ≤ σ.spent table free
        + table.walksBelow weights (table.tangled free (key :: chain)) other
      ∧ (free key = true → verdict ≠ .blocked)
  have hsearch : Searches pays (s.candidates weights) {} (σ.visit chain) found failures σ' := by
    refine (h.searches.located fun _ _ _ _ hR => hR.1.toStays).mono ?_
    rintro other σ₁ verdict σ₂ ⟨⟨-, hcharges⟩, hother, hbehind, -⟩
    have hwait := hwaits (StorySymbol.mem_followed.2 hother)
    obtain ⟨hspent, hverdict⟩ := hcharges (hevolves.trans hbehind.evolves) fun walked hmem => by
      rcases List.mem_cons.1 hmem with rfl | hmem
      · exact .single hwait
      · exact (hchain walked hmem).tail hwait
    exact ⟨hspent, fun hkey => hverdict (hfree.closed hkey hwait)⟩
  have hcost : _ ≤ _ + ((s.followed weights).map
      (table.walksBelow weights (table.tangled free (key :: chain)))).sum :=
    hsearch.cost_le fun _ _ _ _ hR => hR.1
  rw [Sweep.spent_visit] at hcost
  refine ⟨hflagged, fun hkey => ?_, fun hkey => ⟨?_, ?_⟩⟩
  · have hmem : key ∈ table.tangled free chain :=
      SymbolTable.mem_tangled.2 ⟨hflagged, hkey, h.fresh⟩
    rw [SymbolTable.walksBelow_of_mem hmem hget₀, ← SymbolTable.tangled_cons, ← hfollowed]
    omega
  · -- What a free symbol waits for is free, and costs nothing.
    have hnothing : ((s.followed weights).map
        (table.walksBelow weights (table.tangled free (key :: chain)))).sum = 0 := by
      refine List.sum_eq_zero fun cost hmem => ?_
      obtain ⟨other, hother, rfl⟩ := List.mem_map.1 hmem
      refine SymbolTable.walksBelow_of_not_mem fun htangled => ?_
      have := (SymbolTable.mem_tangled.1 htangled).2.1
      exact absurd (hfree.closed hkey (hwaits hother)) (by simp [this])
    omega
  · exact hsearch.not_blocked (fun _ _ _ _ hR => hR.2 hkey) rfl

/-- The cost of a walk with its end. A free symbol cannot be walked again. -/
theorem Walked.charges
    (h : Walked (fun other σ verdict σ' => Attempt (key :: chain) other σ verdict σ'
      ∧ Charges table weights free (key :: chain) other σ verdict σ')
      weights chain key σ s found failures σ')
    (hfree : table.IsFree weights free) (hvisits : τ.visits = σ'.visits)
    (hopen : ∀ other, τ.canWalk other = true → σ'.canWalk other = true)
    (hends : failures.blocked = false → ¬ τ.canWalk key = true ∧ verdict ≠ .blocked) :
    Charges table weights free chain key σ verdict τ := by
  intro hevolves hchain
  obtain ⟨hflagged, htangled, hwalked⟩ := h.spent_le hfree hevolves hchain
  cases hkey : free key with
  | false =>
    refine ⟨?_, nofun⟩
    exact (Sweep.spent_le hvisits hopen).trans (htangled hkey)
  | true =>
    obtain ⟨hspent, hblocked⟩ := hwalked hkey
    obtain ⟨hclosed, hverdict⟩ := hends hblocked
    have hbefore : σ'.canWalk key = true :=
      Sweep.canWalk_iff.2 ⟨s, h.get?_end, h.flagged, h.not_pending_end⟩
    have hpaid := Sweep.spent_lt hvisits hopen hflagged hkey hbefore hclosed
    exact ⟨by omega, fun _ => hverdict⟩

/-- **What an attempt costs.** -/
theorem charges_resolve (hfree : table.IsFree weights free) (room : Nat) (key : SymbolKey)
    (σ : Sweep) (hroom : σ.table.keys.length ≤ room) (hevolves : table.Evolves σ.table) :
    (((resolve weights room [] key).run σ).2).spent table free
      ≤ σ.spent table free + table.walksBelow weights (table.tangled free []) key := by
  have hend := (attempt_induction weights (motive := Charges table weights free)
    ?known ?adopted ?pending ?blocked ?undefined ?dead room key σ hroom).2
  exact (hend hevolves nofun).1
  -- The cases are the ways in which a walk ends. Unless it was blocked on the way, the symbol is
  -- then settled or remembered, so that it is not walked again.
  case known => exact charges_known hfree
  case adopted =>
    intro chain key σ s σ' index d types failures h
    exact h.charges hfree rfl (fun _ => Sweep.canWalk_modify (fun _ => rfl) nofun)
      fun _ => ⟨Sweep.not_canWalk_modify (fun _ => rfl) fun _ => rfl, by decide⟩
  case pending =>
    intro chain key σ s σ' failures h _
    refine h.charges hfree ?_ (fun _ hopen => ?_) fun hblocked => ?_
    · unfold Sweep.remember
      split <;> rfl
    · exact Sweep.canWalk_modify StorySymbol.key_fallBack (fun _ => id)
        (Sweep.canWalk_remember hopen)
    · exact ⟨Sweep.not_canWalk_remember hblocked, by decide⟩
  case blocked =>
    intro chain key σ s σ' failures h _ hblocked _
    exact h.charges hfree rfl (fun _ => id) fun hnot => absurd hblocked (by simp [hnot])
  case undefined =>
    intro chain key σ s hlook hcandidates _
    exact (Walked.of_undefined hlook hcandidates).charges hfree rfl
      (fun _ => Sweep.canWalk_modify StorySymbol.key_waitForDefinition nofun) fun _ =>
        ⟨Sweep.not_canWalk_modify StorySymbol.key_waitForDefinition fun _ => rfl, by decide⟩
  case dead =>
    intro chain key σ s σ' failures h _ _ _
    exact h.charges hfree rfl (fun _ => Sweep.canWalk_modify StorySymbol.key_markDead nofun)
      fun _ => ⟨Sweep.not_canWalk_modify StorySymbol.key_markDead fun _ => rfl, by decide⟩

end Attempts

end Resolving

/-! ## Sweeps and updates

In a sweep every root is attempted once. What it costs comes down to one walk for each free symbol
and to the walks of tangled ones below each root. -/

namespace SymbolTable

variable {table start : SymbolTable} {weights : Weights} {free : SymbolKey → Bool}

/-- In the beginning there is one walk to be spent for each free symbol that is flagged. -/
theorem spent_start_le (table start : SymbolTable) (free : SymbolKey → Bool) :
    Sweep.spent table free { table := start } ≤ (table.flagged.filter free).length := by
  unfold Sweep.spent
  rw [Nat.zero_add]
  refine (Finset.card_le_card ?_).trans (List.toFinset_card_le (table.flagged.filter free))
  intro key hkey
  obtain ⟨hmem, hfree, -⟩ := Finset.mem_filter.1 hkey
  exact List.mem_toFinset.2 (List.mem_filter.2 ⟨List.mem_toFinset.1 hmem, hfree⟩)

/-- A sweep has one walk for each free symbol, and below each root the walks of tangled ones. -/
theorem visits_sweep_le (hfree : table.IsFree weights free) (hevolves : table.Evolves start)
    (hflagged : start.flagged.Sublist table.flagged) :
    (start.sweep weights).visits
      ≤ (table.flagged.filter free).length
        + (table.flagged.map (table.walksBelow weights (table.tangled free []))).sum := by
  let cost := table.walksBelow weights (table.tangled free [])
  -- Each root costs what an attempt on it costs in the table as it was when the update began.
  have hroots : (start.sweep weights).visits
      ≤ Sweep.spent table free { table := start } + (start.flagged.map cost).sum := by
    refine roots_induction weights hevolves
      (motive := fun keys σ σ' => σ'.visits ≤ σ.spent table free + (keys.map cost).sum)
      (fun σ => Nat.le_add_right _ _) fun key rest σ σ' hroom hσ hrest => ?_
    have hfirst : _ ≤ _ + cost key := Resolving.charges_resolve hfree start.size key σ hroom hσ
    rw [List.map_cons, List.sum_cons]
    omega
  have hfewer : (start.flagged.map cost).sum ≤ (table.flagged.map cost).sum :=
    (hflagged.map cost).sum_le_sum fun _ _ => Nat.zero_le _
  exact hroots.trans (Nat.add_le_add (spent_start_le table start free) hfewer)

/-- An update has two sweeps, the second of which finds fewer symbols flagged. -/
theorem visits_update_le (hfree : table.IsFree weights free) :
    (table.update weights).2.visits
      ≤ 2 * ((table.flagged.filter free).length
        + (table.flagged.map (table.walksBelow weights (table.tangled free []))).sum) := by
  have hfirst := visits_sweep_le hfree (.refl table) (.refl _)
  have hsecond := visits_sweep_le hfree (table.evolves_sweep weights)
    (table.narrows_sweep weights).flagged
  have htotal : (table.update weights).2.visits
      = (table.sweep weights).visits + ((table.sweep weights).table.sweep weights).visits := rfl
  omega

/-- Nothing is walked but free symbols, if there are no others. -/
theorem visits_update_le_of_forall_free (hfree : table.IsFree weights free)
    (hall : ∀ key ∈ table.flagged, free key = true) :
    (table.update weights).2.visits ≤ 2 * table.flagged.length := by
  have hnone : (table.flagged.map (table.walksBelow weights (table.tangled free []))).sum = 0 := by
    refine List.sum_eq_zero fun cost hmem => ?_
    obtain ⟨key, hkey, rfl⟩ := List.mem_map.1 hmem
    refine walksBelow_of_not_mem fun htangled => ?_
    exact absurd (hall key hkey) (by simp [(mem_tangled.1 htangled).2.1])
  have hwalks := visits_update_le hfree
  have hfew := List.length_filter_le free table.flagged
  omega

/-- **How often symbols are walked in an update.** In each sweep a free symbol is walked at most
once, and another one at most once for each path to it on which no symbol comes twice. If all flagged
symbols are free, there are at most twice as many walks as there are flagged symbols. -/
theorem free_symbols_are_walked_once (table : SymbolTable) (weights : Weights)
    (free : SymbolKey → Bool) (hfree : table.IsFree weights free) :
    (table.update weights).2.visits
        ≤ 2 * ((table.flagged.filter free).length
          + (table.flagged.map (table.walksBelow weights (table.tangled free []))).sum)
      ∧ ((∀ key ∈ table.flagged, free key = true) →
        (table.update weights).2.visits ≤ 2 * table.flagged.length) :=
  ⟨visits_update_le hfree, visits_update_le_of_forall_free hfree⟩

/-- A chain of databases that are copied from each other, the last from a variable without type. -/
def copyingChain : SymbolTable :=
  ⟨[database "DB_A" [copied 1 "DB_B", copied 2 "DB_C"],
    database "DB_B" [copied 1 "DB_C", copied 2 "DB_C"],
    database "DB_C" [written 1 .unknown]]⟩

/-- Three symbols on a chain make six walks at most. -/
theorem copyingChain_is_walked_once_a_sweep : (copyingChain.update []).2.visits ≤ 6 := by
  let rank (key : SymbolKey) : Nat := ["DB_C", "DB_B", "DB_A"].idxOf key.name
  have hchecked : (copyingChain.symbols.all fun s => (s.followed []).all fun other =>
      decide (rank other < rank s.key)) = true := by cbv
  have hrank : ∀ s ∈ copyingChain.symbols, ∀ other ∈ s.followed [], rank other < rank s.key := by
    simpa only [List.all_eq_true, decide_eq_true_eq] using hchecked
  exact (free_symbols_are_walked_once copyingChain [] (fun _ => true) (isFree_of_rank hrank)).2
    fun _ _ => rfl

/-- Two databases that are filled from each other, one of them at three places. -/
def fannedCircle : SymbolTable :=
  ⟨[database "DB_A" [copied 1 "DB_B", copied 2 "DB_B", copied 3 "DB_B"],
    database "DB_B" [copied 1 "DB_A"]]⟩

/-- **A blocked symbol is walked again.** From `DB_A`, `DB_B` is walked for each of the three places,
and each time it meets `DB_A` on the chain. Only then `DB_A` is dead, and `DB_B` is walked once
more. -/
theorem symbols_can_be_walked_again :
    ¬ ∀ (table : SymbolTable) (weights : Weights),
      (table.update weights).2.visits ≤ 2 * table.flagged.length := by
  intro h
  have hvisits : (fannedCircle.update []).2.visits = 5 := by cbv
  have hflagged : fannedCircle.flagged.length = 2 := by decide
  have hbound := h fannedCircle []
  omega

end SymbolTable

end StoryCheck
