import Mathlib.Tactic.Common
import StoryCheck.Proofs.Symbol.Lookup

/-!
# Attempts to resolve a symbol

`Resolving.resolve` calls itself from inside two loops, one over the candidates of a symbol and one
over the parameters of a candidate, and its recursion is bounded by the room that is left on the
chain. This module takes it apart once, so that no later proof unfolds it.

## The architecture

* **`Completes`**, **`Searches`** — what the two loops do, as relations. Both take a relation that
  says what an attempt on another symbol may do, so they are ordinary inductive predicates although
  the functions are mutually recursive with `resolve`.
* **`toWalk_eq_ok_iff`**, **`toWalk_eq_error`** — when a symbol is walked, and what is known about
  it if it is not.
* **`resolve_induction`** — to prove something about every attempt, prove it for a symbol that is
  not walked and for the five ways in which a walk ends, assuming it of the attempts inside the
  walk. That the room is never used up is discharged here: the chain holds no key twice and only
  keys of the table.
-/

namespace StoryCheck

/-- The type that a reference finds in the table; unknown if it leads nowhere. -/
def SymbolTable.typeAt (table : SymbolTable) (ref : ParameterRef) : ValueType :=
  (((table.get? ref.symbol).bind fun s => s.parameters[ref.index]?).map (·.type)).getD .unknown

namespace Sweep

/-- The sweep with one more symbol walked below a chain. -/
def visit (σ : Sweep) (chain : List SymbolKey) : Sweep :=
  { σ with visits := σ.visits + 1, maxDepth := max σ.maxDepth (chain.length + 1) }

/-- The sweep with the symbol of a key changed. -/
def modify (σ : Sweep) (key : SymbolKey) (f : StorySymbol → StorySymbol) : Sweep :=
  { σ with table := σ.table.modify key f }

/-- The sweep in which a symbol is remembered as pending, unless the chain had a part in that. -/
def remember (σ : Sweep) (key : SymbolKey) (failures : Failures) : Sweep :=
  if failures.blocked then σ else { σ with pending := key :: σ.pending }

/-- A visit is counted and leaves the table. -/
@[simp] theorem table_visit (σ : Sweep) (chain : List SymbolKey) :
    (σ.visit chain).table = σ.table := rfl

/-- A visit leaves what is remembered. -/
@[simp] theorem pending_visit (σ : Sweep) (chain : List SymbolKey) :
    (σ.visit chain).pending = σ.pending := rfl

/-- A symbol is changed in the table. -/
@[simp] theorem table_modify (σ : Sweep) (key : SymbolKey) (f : StorySymbol → StorySymbol) :
    (σ.modify key f).table = σ.table.modify key f := rfl

/-- Changing a symbol leaves what is remembered. -/
@[simp] theorem pending_modify (σ : Sweep) (key : SymbolKey) (f : StorySymbol → StorySymbol) :
    (σ.modify key f).pending = σ.pending := rfl

/-- Remembering a verdict leaves the table. -/
@[simp] theorem table_remember (σ : Sweep) (key : SymbolKey) (failures : Failures) :
    (σ.remember key failures).table = σ.table := by
  unfold remember
  split <;> rfl

/-- A verdict is remembered if the chain had no part in it. -/
theorem mem_pending_remember {σ : Sweep} {key other : SymbolKey} {failures : Failures} :
    other ∈ (σ.remember key failures).pending
      ↔ other ∈ σ.pending ∨ (other = key ∧ failures.blocked = false) := by
  unfold remember
  cases failures.blocked <;> simp [or_comm]

end Sweep

namespace Resolving

/-! ## The two loops as relations

`R key σ verdict σ'` says that an attempt on `key` in the sweep `σ` may come to `verdict` and leave
the sweep `σ'`. -/

section Loops

variable (R : SymbolKey → Sweep → Resolution → Sweep → Prop)

/-- Looking for the types of some parameters, each attempt on a symbol being one that `R` allows. -/
inductive Completes : List DefinitionParameter → Sweep → Completion → Sweep → Prop where
  | nil (σ : Sweep) : Completes [] σ (.ok []) σ
  | explicit {p : DefinitionParameter} {rest : List DefinitionParameter} {type : ValueType}
      {σ σ' : Sweep} {c : Completion}
      (hsource : p.source = .explicit type) (hrest : Completes rest σ c σ') :
      Completes (p :: rest) σ (c.map ((type, none) :: ·)) σ'
  | unknown {p : DefinitionParameter} {rest : List DefinitionParameter} {σ : Sweep}
      (hsource : p.source = .unknown) :
      Completes (p :: rest) σ (.error .pending) σ
  | typed {p : DefinitionParameter} {rest : List DefinitionParameter} {ref : ParameterRef}
      {σ σ₁ σ' : Sweep} {c : Completion}
      (hsource : p.source = .reference ref) (hattempt : R ref.symbol σ .resolved σ₁)
      (hknown : (σ₁.table.typeAt ref).isKnown = true) (hrest : Completes rest σ₁ c σ') :
      Completes (p :: rest) σ (c.map ((σ₁.table.typeAt ref, some ref) :: ·)) σ'
  | untyped {p : DefinitionParameter} {rest : List DefinitionParameter} {ref : ParameterRef}
      {σ σ₁ : Sweep}
      (hsource : p.source = .reference ref) (hattempt : R ref.symbol σ .resolved σ₁)
      (hknown : (σ₁.table.typeAt ref).isKnown = false) :
      Completes (p :: rest) σ (.error .pending) σ₁
  | failed {p : DefinitionParameter} {rest : List DefinitionParameter} {ref : ParameterRef}
      {σ σ₁ : Sweep} {why : Resolution}
      (hsource : p.source = .reference ref) (hattempt : R ref.symbol σ why σ₁)
      (hwhy : why ≠ .resolved) :
      Completes (p :: rest) σ (.error why) σ₁

/-- Looking for the first complete candidate, each attempt on a symbol being one that `R` allows. -/
inductive Searches : List (Nat × SymbolDefinition) → Failures → Sweep →
    Option Adoption → Failures → Sweep → Prop where
  | exhausted (failures : Failures) (σ : Sweep) : Searches [] failures σ none failures σ
  | partly {index : Nat} {d : SymbolDefinition} {rest : List (Nat × SymbolDefinition)}
      {failures failures' : Failures} {σ σ' : Sweep} {found : Option Adoption}
      (hpartial : d.isPartial = true)
      (hrest : Searches rest { failures with pending := true } σ found failures' σ') :
      Searches ((index, d) :: rest) failures σ found failures' σ'
  | complete {index : Nat} {d : SymbolDefinition} {rest : List (Nat × SymbolDefinition)}
      {failures : Failures} {σ σ' : Sweep} {types : List (ValueType × Option ParameterRef)}
      (hpartial : d.isPartial = false) (htypes : Completes R d.parameters σ (.ok types) σ') :
      Searches ((index, d) :: rest) failures σ (some (index, d, types)) failures σ'
  | incomplete {index : Nat} {d : SymbolDefinition} {rest : List (Nat × SymbolDefinition)}
      {failures failures' : Failures} {σ σ₁ σ' : Sweep} {found : Option Adoption}
      {why : Resolution}
      (hpartial : d.isPartial = false) (htypes : Completes R d.parameters σ (.error why) σ₁)
      (hrest : Searches rest (failures.add why) σ₁ found failures' σ') :
      Searches ((index, d) :: rest) failures σ found failures' σ'

end Loops

section Loops

variable {R : SymbolKey → Sweep → Resolution → Sweep → Prop} {I : Sweep → Prop}
  {resolve : SymbolKey → Resolving Resolution}

/-- A parameter with a type of its own takes that type. -/
theorem run_complete_explicit {p : DefinitionParameter} {rest : List DefinitionParameter}
    {type : ValueType} {σ : Sweep} (hsource : p.source = .explicit type) :
    (complete resolve (p :: rest)).run σ
      = (((complete resolve rest).run σ).1.map ((type, none) :: ·),
          ((complete resolve rest).run σ).2) := by
  simp only [complete, hsource]
  rfl

/-- One that says nothing leaves the candidate incomplete. -/
theorem run_complete_unknown {p : DefinitionParameter} {rest : List DefinitionParameter}
    {σ : Sweep} (hsource : p.source = .unknown) :
    (complete resolve (p :: rest)).run σ = (.error .pending, σ) := by
  simp only [complete, hsource]
  rfl

/-- One that refers to a symbol has that symbol resolved, and takes its type if it has one by then. -/
theorem run_complete_reference {p : DefinitionParameter} {rest : List DefinitionParameter}
    {ref : ParameterRef} {σ : Sweep} (hsource : p.source = .reference ref) :
    (complete resolve (p :: rest)).run σ
      = match (resolve ref.symbol).run σ with
        | (.resolved, σ₁) =>
          if (σ₁.table.typeAt ref).isKnown then
            (((complete resolve rest).run σ₁).1.map ((σ₁.table.typeAt ref, some ref) :: ·),
              ((complete resolve rest).run σ₁).2)
          else (.error .pending, σ₁)
        | (other, σ₁) => (.error other, σ₁) := by
  simp only [complete, hsource]
  rw [StateT.run_bind]
  generalize (resolve ref.symbol).run σ = r
  obtain ⟨verdict, σ₁⟩ := r
  cases verdict with
  | resolved =>
    show (if (σ₁.table.typeAt ref).isKnown = true then _ else _ : Resolving Completion).run σ₁
      = ite _ _ _
    split <;> rfl
  | pending | dead | blocked => rfl

/-- The loop over parameters, if attempts keep `I` and do what `R` says wherever `I` holds. -/
theorem completes_complete
    (hresolve : ∀ key σ, I σ →
      R key σ ((resolve key).run σ).1 ((resolve key).run σ).2 ∧ I ((resolve key).run σ).2)
    (parameters : List DefinitionParameter) :
    ∀ σ, I σ → Completes R parameters σ ((complete resolve parameters).run σ).1
        ((complete resolve parameters).run σ).2
      ∧ I ((complete resolve parameters).run σ).2 := by
  -- Along the parameters, each in the state that the one before left.
  induction parameters with
  | nil => exact fun σ hI => ⟨.nil σ, hI⟩
  | cons p rest ih =>
    intro σ hI
    cases hsource : p.source with
    | explicit type =>
      rw [run_complete_explicit hsource]
      exact ⟨.explicit hsource (ih σ hI).1, (ih σ hI).2⟩
    | unknown =>
      rw [run_complete_unknown hsource]
      exact ⟨.unknown hsource, hI⟩
    | reference ref =>
      obtain ⟨hattempt, hI₁⟩ := hresolve ref.symbol σ hI
      rw [run_complete_reference hsource]
      generalize (resolve ref.symbol).run σ = r at hattempt hI₁
      obtain ⟨verdict, σ₁⟩ := r
      cases verdict with
      | resolved =>
        cases hknown : (σ₁.table.typeAt ref).isKnown with
        | true =>
          simp only [hknown, if_true]
          exact ⟨.typed hsource hattempt hknown (ih σ₁ hI₁).1, (ih σ₁ hI₁).2⟩
        | false =>
          simp only [hknown, Bool.false_eq_true, if_false]
          exact ⟨.untyped hsource hattempt hknown, hI₁⟩
      | pending | dead | blocked =>
        exact ⟨.failed hsource hattempt (by decide), hI₁⟩

/-- A partial candidate is not tried; it is a reason to wait. -/
theorem run_firstComplete_partial {index : Nat} {d : SymbolDefinition}
    {rest : List (Nat × SymbolDefinition)} {failures : Failures} {σ : Sweep}
    (hpartial : d.isPartial = true) :
    (firstComplete resolve ((index, d) :: rest) failures).run σ
      = (firstComplete resolve rest { failures with pending := true }).run σ := by
  simp only [firstComplete, hpartial, if_true]

/-- Any other candidate is tried, and if it fails the reason is added and the next one has its turn. -/
theorem run_firstComplete {index : Nat} {d : SymbolDefinition}
    {rest : List (Nat × SymbolDefinition)} {failures : Failures} {σ : Sweep}
    (hpartial : d.isPartial = false) :
    (firstComplete resolve ((index, d) :: rest) failures).run σ
      = match (complete resolve d.parameters).run σ with
        | (.ok types, σ₁) => ((some (index, d, types), failures), σ₁)
        | (.error why, σ₁) => (firstComplete resolve rest (failures.add why)).run σ₁ := by
  simp only [firstComplete, hpartial, Bool.false_eq_true, if_false]
  rw [StateT.run_bind]
  generalize (complete resolve d.parameters).run σ = r
  obtain ⟨c, σ₁⟩ := r
  cases c <;> rfl

/-- The loop over candidates, if attempts keep `I` and do what `R` says wherever `I` holds. -/
theorem searches_firstComplete
    (hresolve : ∀ key σ, I σ →
      R key σ ((resolve key).run σ).1 ((resolve key).run σ).2 ∧ I ((resolve key).run σ).2)
    (candidates : List (Nat × SymbolDefinition)) :
    ∀ failures σ, I σ →
      Searches R candidates failures σ ((firstComplete resolve candidates failures).run σ).1.1
        ((firstComplete resolve candidates failures).run σ).1.2
        ((firstComplete resolve candidates failures).run σ).2
      ∧ I ((firstComplete resolve candidates failures).run σ).2 := by
  induction candidates with
  | nil => exact fun failures σ hI => ⟨.exhausted failures σ, hI⟩
  | cons candidate rest ih =>
    intro failures σ hI
    obtain ⟨index, d⟩ := candidate
    cases hpartial : d.isPartial with
    | true =>
      rw [run_firstComplete_partial hpartial]
      obtain ⟨hrest, hI'⟩ := ih { failures with pending := true } σ hI
      exact ⟨.partly hpartial hrest, hI'⟩
    | false =>
      obtain ⟨htypes, hI₁⟩ := completes_complete hresolve d.parameters σ hI
      rw [run_firstComplete hpartial]
      generalize (complete resolve d.parameters).run σ = r at htypes hI₁
      obtain ⟨c, σ₁⟩ := r
      cases c with
      | ok types => exact ⟨.complete hpartial htypes, hI₁⟩
      | error why =>
        obtain ⟨hrest, hI'⟩ := ih (failures.add why) σ₁ hI₁
        exact ⟨.incomplete hpartial htypes hrest, hI'⟩

end Loops

/-! ## Looking at a symbol

Before a symbol is walked it is asked whether it exists, is flagged, is remembered as pending and
is on the chain. In all cases but one its verdict is known at once. -/

section Look

variable {σ : Sweep} {chain : List SymbolKey} {key : SymbolKey} {s : StorySymbol}

/-- A symbol is walked if it is flagged, was not found pending in this sweep and is not on the
chain. -/
theorem toWalk_eq_ok_iff :
    toWalk σ chain key = .ok s
      ↔ σ.table.get? key = some s ∧ s.needsUpdate = true ∧ key ∉ σ.pending ∧ key ∉ chain := by
  unfold toWalk
  cases hget : σ.table.get? key with
  | none => simp
  | some t =>
    cases hflag : t.needsUpdate with
    | false =>
      simp only [hflag, Bool.not_false, if_true, reduceCtorEq, Option.some.injEq, false_iff]
      rintro ⟨rfl, hs, -⟩
      exact absurd hs (by simp [hflag])
    | true =>
      by_cases hpending : key ∈ σ.pending
      · simp [hflag, hpending]
      · by_cases hchain : key ∈ chain
        · simp [hflag, hpending, hchain]
        · simp only [hflag, hpending, hchain, Bool.not_true, Bool.false_eq_true, if_false,
            List.contains_eq_mem, decide_false, Except.ok.injEq, Option.some.injEq,
            not_false_eq_true, and_true]
          constructor
          · rintro rfl
            exact ⟨rfl, hflag⟩
          · exact fun h => h.1

/-- What is known about a symbol that is not walked. -/
theorem toWalk_eq_error {verdict : Resolution} (h : toWalk σ chain key = .error verdict) :
    (σ.table.get? key = none ∧ verdict = .dead)
      ∨ ∃ s, σ.table.get? key = some s
        ∧ ((s.needsUpdate = false ∧ verdict = s.resolution)
          ∨ (s.needsUpdate = true ∧ key ∈ σ.pending ∧ verdict = .pending)
          ∨ (s.needsUpdate = true ∧ key ∉ σ.pending ∧ key ∈ chain ∧ verdict = .blocked)) := by
  unfold toWalk at h
  cases hget : σ.table.get? key with
  | none =>
    simp only [hget, Except.error.injEq] at h
    exact Or.inl ⟨rfl, h.symm⟩
  | some s =>
    refine Or.inr ⟨s, rfl, ?_⟩
    simp only [hget] at h
    cases hflag : s.needsUpdate with
    | false => simp_all
    | true =>
      by_cases hpending : key ∈ σ.pending
      · simp_all
      · by_cases hchain : key ∈ chain <;> simp_all

end Look

/-! ## Walking a symbol

A walk searches the candidates and then settles the symbol by what was found. How it ends is decided
by three questions: whether something is awaited, whether the chain was met, and whether there was
anything to try. -/

/-- The end of a walk that found nothing. -/
theorem run_settle (key : SymbolKey) (isRoot hasCandidates isDatabase : Bool)
    (failures : Failures) (σ : Sweep) :
    (settle key isRoot hasCandidates isDatabase failures).run σ
      = if failures.pending then (.pending, (σ.modify key .fallBack).remember key failures)
        else if failures.blocked && !isRoot then (.blocked, σ)
        else if !hasCandidates && !isDatabase then (.pending, σ.modify key .waitForDefinition)
        else (.dead, σ.modify key .markDead) := by
  unfold settle
  cases hpending : failures.pending with
  | true =>
    simp only [if_true, Sweep.remember]
    cases failures.blocked <;> rfl
  | false =>
    simp only [Bool.false_eq_true, if_false]
    split
    · rfl
    · split <;> rfl

/-- A walk: the search, and what is made of it. -/
theorem run_walk (weights : Weights) (resolve : SymbolKey → Resolving Resolution)
    (chain : List SymbolKey) (key : SymbolKey) (s : StorySymbol) (σ : Sweep) :
    (walk weights resolve chain key s).run σ
      = match (firstComplete resolve (s.candidates weights) {}).run (σ.visit chain) with
        | ((some (index, d, types), _), σ') =>
          (.resolved, σ'.modify key fun s => s.adopt index d types)
        | ((none, failures), σ') =>
          (settle key chain.isEmpty (!(s.candidates weights).isEmpty) s.isDatabase failures).run
            σ' := by
  unfold walk
  simp only [StateT.run_bind, StateT.run_modify, pure_bind]
  show (bind ((firstComplete resolve (s.candidates weights) {}).run (σ.visit chain)) _ : Id _) = _
  generalize (firstComplete resolve (s.candidates weights) {}).run (σ.visit chain) = r
  obtain ⟨⟨found, failures⟩, σ'⟩ := r
  cases found <;> rfl

/-- Finding nothing without having looked leaves everything as it is. -/
theorem searches_nil {R : SymbolKey → Sweep → Resolution → Sweep → Prop}
    {failures failures' : Failures} {σ σ' : Sweep} {found : Option Adoption}
    (h : Searches R [] failures σ found failures' σ') :
    found = none ∧ failures' = failures ∧ σ' = σ := by
  cases h
  exact ⟨rfl, rfl, rfl⟩

/-- A chain without repetition that lies in the table leaves room for every symbol that is not on
it. -/
theorem room_pos {table : SymbolTable} {chain : List SymbolKey} {key : SymbolKey} {room : Nat}
    (hnodup : chain.Nodup) (hsubset : chain ⊆ table.keys)
    (hroom : table.keys.length ≤ chain.length + room)
    (hkey : key ∈ table.keys) (hfresh : key ∉ chain) : 0 < room := by
  have hlonger : (key :: chain).length ≤ table.keys.length :=
    (List.nodup_cons.2 ⟨hfresh, hnodup⟩).length_le_of_subset
      (List.cons_subset.2 ⟨hkey, hsubset⟩)
  simp only [List.length_cons] at hlonger
  omega

/-- Without room nothing is walked. -/
theorem run_resolve_zero (weights : Weights) (chain : List SymbolKey) (key : SymbolKey)
    (σ : Sweep) : (resolve weights 0 chain key).run σ
      = match toWalk σ chain key with
        | .error verdict => (verdict, σ)
        | .ok _ => (.blocked, σ) := by
  show StateT.run (match toWalk σ chain key with | .error _ => _ | .ok _ => _) σ = _
  cases toWalk σ chain key <;> rfl

/-- With room left, a symbol that is not to be walked answers at once and any other is walked with
less room. -/
theorem run_resolve_succ (weights : Weights) (room : Nat) (chain : List SymbolKey)
    (key : SymbolKey) (σ : Sweep) : (resolve weights (room + 1) chain key).run σ
      = match toWalk σ chain key with
        | .error verdict => (verdict, σ)
        | .ok s => (walk weights (resolve weights room (key :: chain)) chain key s).run σ := by
  show StateT.run (match toWalk σ chain key with | .error _ => _ | .ok _ => _) σ = _
  cases toWalk σ chain key <;> rfl

/-- A verdict that is known is given in any room, and nothing is done for it. -/
theorem run_resolve_of_known {chain : List SymbolKey} {key : SymbolKey} {σ : Sweep}
    {verdict : Resolution} (hwalk : toWalk σ chain key = .error verdict) (weights : Weights)
    (room : Nat) : (resolve weights room chain key).run σ = (verdict, σ) := by
  cases room with
  | zero => rw [run_resolve_zero, hwalk]
  | succ room => rw [run_resolve_succ, hwalk]

/-- **Induction over attempts.** What holds of a symbol that is not walked, and of a walk in each
of the five ways it may end if it holds of the attempts in the walk, holds of every attempt. The
room has to suffice for the table. -/
theorem resolve_induction (weights : Weights)
    {motive : List SymbolKey → SymbolKey → Sweep → Resolution → Sweep → Prop}
    (known : ∀ {chain key σ verdict}, toWalk σ chain key = .error verdict →
      motive chain key σ verdict σ)
    (adopted : ∀ {chain key σ s σ' index d types failures}, toWalk σ chain key = .ok s →
      Searches (motive (key :: chain)) (s.candidates weights) {} (σ.visit chain)
        (some (index, d, types)) failures σ' →
      motive chain key σ .resolved (σ'.modify key fun s => s.adopt index d types))
    (pending : ∀ {chain key σ s σ' failures}, toWalk σ chain key = .ok s →
      Searches (motive (key :: chain)) (s.candidates weights) {} (σ.visit chain) none failures σ' →
      failures.pending = true →
      motive chain key σ .pending ((σ'.modify key .fallBack).remember key failures))
    (blocked : ∀ {chain key σ s σ' failures}, toWalk σ chain key = .ok s →
      Searches (motive (key :: chain)) (s.candidates weights) {} (σ.visit chain) none failures σ' →
      failures.pending = false → failures.blocked = true → chain ≠ [] →
      motive chain key σ .blocked σ')
    (undefined : ∀ {chain key σ s}, toWalk σ chain key = .ok s →
      s.candidates weights = [] → s.isDatabase = false →
      motive chain key σ .pending ((σ.visit chain).modify key .waitForDefinition))
    (dead : ∀ {chain key σ s σ' failures}, toWalk σ chain key = .ok s →
      Searches (motive (key :: chain)) (s.candidates weights) {} (σ.visit chain) none failures σ' →
      failures.pending = false → (failures.blocked = true → chain = []) →
      (s.candidates weights = [] → s.isDatabase = true) →
      motive chain key σ .dead (σ'.modify key .markDead))
    (room : Nat) (key : SymbolKey) (σ : Sweep) (hroom : σ.table.keys.length ≤ room) :
    motive [] key σ ((resolve weights room [] key).run σ).1
      ((resolve weights room [] key).run σ).2 := by
  -- The keys of the table never change, so the bound on the chain holds all along.
  suffices h : ∀ keys : List SymbolKey, ∀ (room : Nat) (chain : List SymbolKey) (key : SymbolKey)
      (σ : Sweep), chain.Nodup → chain ⊆ keys → keys.length ≤ chain.length + room →
      σ.table.keys = keys →
      motive chain key σ ((resolve weights room chain key).run σ).1
          ((resolve weights room chain key).run σ).2
        ∧ ((resolve weights room chain key).run σ).2.table.keys = keys from
    (h σ.table.keys room [] key σ .nil (List.nil_subset _) (by simpa using hroom) rfl).1
  intro keys room
  induction room with
  | zero =>
    intro chain key σ hnodup hsubset hroom hkeys
    rw [run_resolve_zero]
    cases hwalk : toWalk σ chain key with
    | error verdict => exact ⟨known hwalk, hkeys⟩
    | ok s =>
      -- Without room all keys are on the chain, so there is none left to walk.
      obtain ⟨hget, -, -, hfresh⟩ := toWalk_eq_ok_iff.1 hwalk
      subst hkeys
      exact absurd (room_pos hnodup hsubset hroom (SymbolTable.mem_keys_of_get? hget) hfresh)
        (Nat.lt_irrefl 0)
  | succ room ih =>
    intro chain key σ hnodup hsubset hroom hkeys
    rw [run_resolve_succ]
    cases hwalk : toWalk σ chain key with
    | error verdict => exact ⟨known hwalk, hkeys⟩
    | ok s =>
      obtain ⟨hget, -, -, hfresh⟩ := toWalk_eq_ok_iff.1 hwalk
      have hkey : key ∈ keys := hkeys ▸ SymbolTable.mem_keys_of_get? hget
      obtain ⟨hsearch, hkeys'⟩ := searches_firstComplete (I := fun σ => σ.table.keys = keys)
        (fun other σ hkeys => ih (key :: chain) other σ (List.nodup_cons.2 ⟨hfresh, hnodup⟩)
          (List.cons_subset.2 ⟨hkey, hsubset⟩) (by simp only [List.length_cons]; omega) hkeys)
        (s.candidates weights) {} (σ.visit chain) hkeys
      show motive chain key σ
          ((walk weights (resolve weights room (key :: chain)) chain key s).run σ).1
          ((walk weights (resolve weights room (key :: chain)) chain key s).run σ).2
        ∧ ((walk weights (resolve weights room (key :: chain)) chain key s).run σ).2.table.keys
          = keys
      rw [run_walk]
      generalize (firstComplete (resolve weights room (key :: chain)) (s.candidates weights)
        {}).run (σ.visit chain) = r at hsearch hkeys'
      obtain ⟨⟨found, failures⟩, σ'⟩ := r
      have hmodify {f : StorySymbol → StorySymbol} (hf : ∀ s, (f s).key = s.key) :
          (σ'.modify key f).table.keys = keys := (SymbolTable.keys_modify hf).trans hkeys'
      -- The walk is over. What comes of it hangs on what it found, or on why it found nothing.
      cases found with
      | some adoption =>
        obtain ⟨index, d, types⟩ := adoption
        exact ⟨adopted hwalk hsearch, hmodify fun s => s.key_adopt index d types⟩
      | none =>
        simp only [run_settle]
        cases hpending : failures.pending with
        | true =>
          refine ⟨pending hwalk hsearch hpending, ?_⟩
          rw [if_pos rfl, Sweep.table_remember]
          exact hmodify StorySymbol.key_fallBack
        | false =>
          rw [if_neg Bool.false_ne_true]
          by_cases hblocked : failures.blocked = true ∧ chain ≠ []
          · rw [if_pos (by simpa using hblocked)]
            exact ⟨blocked hwalk hsearch hpending hblocked.1 hblocked.2, hkeys'⟩
          · rw [if_neg (by simpa using hblocked)]
            by_cases hnone : s.candidates weights = [] ∧ s.isDatabase = false
            · rw [if_pos (by simpa using hnone)]
              rw [hnone.1] at hsearch
              obtain ⟨-, -, rfl⟩ := searches_nil hsearch
              exact ⟨undefined hwalk hnone.1 hnone.2,
                hmodify StorySymbol.key_waitForDefinition⟩
            · rw [if_neg (by simpa using hnone)]
              refine ⟨dead hwalk hsearch hpending ?_ ?_, hmodify StorySymbol.key_markDead⟩
              · intro hb
                by_contra hchain
                exact hblocked ⟨hb, hchain⟩
              · intro hc
                rw [← Bool.not_eq_false]
                exact fun hdb => hnone ⟨hc, hdb⟩

end Resolving

end StoryCheck
