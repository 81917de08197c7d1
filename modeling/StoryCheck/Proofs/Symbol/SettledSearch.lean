import StoryCheck.Proofs.Symbol.Evolution
import StoryCheck.Proofs.Symbol.Settling

/-!
# Searches follow every settling

The loops of a walk, next to what a settling says about the symbol that is walked. Nothing is
assumed about the attempts inside of them but that they keep to the settling themselves.

## The architecture

* **`Shows`** — a symbol has come to a judgement.
* **`Follows`** — a sweep agrees with a settling so far: what it settled shows the judgement, and
  what it remembers as pending is judged to be so.
* **`Hears`** — what a walk is told about a symbol that it refers to. A symbol with types reports
  them. One without may also be blocked; that a waiting symbol is blocked is excused by one on the
  chain that has a better reason to wait.
* **`Completes.follows`**, **`Searches.follows`** — the loops of a walk find what the view finds.
-/

namespace StoryCheck

/-! ## Showing a judgement

How the state of a symbol is compared with its judgement, and what an attempt may report while some
symbols are on the chain. -/

namespace StorySymbol

/-- The symbol has come to a judgement. -/
def Shows (s : StorySymbol) : Judgement → Prop
  | .declared types => s.resolution = .resolved ∧ s.parameters.map (·.type) = types
  | .adopts d types => ∃ index, s.definitions[index]? = some d ∧ s.adopt index d types = s
  | .pending => s.resolution = .pending ∧ s.fallBack = s
  | .dead => s.resolution = .dead ∧ s.fallBack = s

end StorySymbol

namespace SymbolTable

variable {table : SymbolTable} {key : SymbolKey} {s : StorySymbol} {weights : Weights}

/-- A sweep agrees with a settling so far. -/
structure Settling.Follows (S : table.Settling weights) (σ : Sweep) : Prop where
  evolves : table.Evolves σ.table
  settled : ∀ {key s}, S.covers key → σ.table.get? key = some s → s.needsUpdate = false →
    s.Shows (S.view key)
  remembered : ∀ {key s}, S.covers key → key ∈ σ.pending → σ.table.get? key = some s →
    S.view key = .pending ∧ s.fallBack = s

/-- The symbols of the chain are being walked. -/
def IsWalked (chain : List SymbolKey) (σ : Sweep) : Prop :=
  ∀ other ∈ chain, ∃ s, σ.table.get? other = some s ∧ s.needsUpdate = true ∧ other ∉ σ.pending

/-- The symbols of the chain need the symbol. -/
def Settling.Reaches (S : table.Settling weights) (chain : List SymbolKey) (key : SymbolKey) :
    Prop :=
  ∀ other ∈ chain, S.covers other → Relation.TransGen (table.Needs weights S.view) other key

/-- A symbol on the chain has a better reason to wait. -/
def Settling.Excuse (S : table.Settling weights) (chain : List SymbolKey) (key : SymbolKey) :
    Prop :=
  ∃ other ∈ chain, S.covers other ∧ S.view other = .pending ∧ S.rank other < S.rank key

/-- What an attempt on a symbol that is not on the chain may report. -/
def Settling.Answers (S : table.Settling weights) (chain : List SymbolKey) (key : SymbolKey)
    (verdict : Resolution) : Prop :=
  match S.view key with
  | .declared _ | .adopts _ _ => verdict = .resolved
  | .pending => verdict = .pending ∨ (verdict = .blocked ∧ S.Excuse chain key)
  | .dead => verdict = .dead ∨ (verdict = .blocked ∧ chain ≠ [])

end SymbolTable

/-! ## Types of symbols that show a judgement

A view finds types for the parameters of a definition. These become the types of the symbol that
adopts it, in the same order, so that a reference to a parameter finds the type the view has for it. -/

namespace View

/-- There are as many types as parameters. -/
theorem length_complete {view : View} {parameters : List DefinitionParameter}
    {types : List (ValueType × Option ParameterRef)} (h : view.complete parameters = .ok types) :
    types.length = parameters.length := by
  induction parameters generalizing types with
  | nil =>
    cases h
    rfl
  | cons p rest ih =>
    unfold complete at h
    split at h
    · obtain ⟨tail, htail, rfl⟩ := Resolving.map_eq_ok.1 h
      simp [ih htail]
    · cases h
    · split at h
      · obtain ⟨tail, htail, rfl⟩ := Resolving.map_eq_ok.1 h
        simp [ih htail]
      · cases h

/-- A definition that is found is one of the candidates and complete. -/
theorem firstComplete_eq_some {view : View} {candidates : List SymbolDefinition}
    {d : SymbolDefinition} {types : List (ValueType × Option ParameterRef)}
    (h : view.firstComplete candidates = some (d, types)) :
    d ∈ candidates ∧ view.complete d.parameters = .ok types := by
  induction candidates with
  | nil => cases h
  | cons first rest ih =>
    unfold firstComplete at h
    split at h
    · exact ⟨List.mem_cons_of_mem _ (ih h).1, (ih h).2⟩
    · split at h
      · next hcomplete =>
        cases h
        exact ⟨List.mem_cons_self, hcomplete⟩
      · exact ⟨List.mem_cons_of_mem _ (ih h).1, (ih h).2⟩

/-- A judgement adopts the first complete candidate. -/
theorem judge_eq_adopts {view : View} {isDatabase : Bool} {candidates : List SymbolDefinition}
    {d : SymbolDefinition} {types : List (ValueType × Option ParameterRef)} :
    view.judge isDatabase candidates = .adopts d types
      ↔ view.firstComplete candidates = some (d, types) := by
  unfold judge
  cases hfound : view.firstComplete candidates with
  | some found =>
    obtain ⟨d', types'⟩ := found
    simp
  | none =>
    simp only [reduceCtorEq, iff_false]
    split <;> simp

/-- A symbol waits if it finds none and one of the candidates, or the lack of any, makes it wait. -/
theorem judge_eq_pending {view : View} {isDatabase : Bool} {candidates : List SymbolDefinition} :
    view.judge isDatabase candidates = .pending
      ↔ view.firstComplete candidates = none
        ∧ ((∃ d ∈ candidates, view.awaits d = true) ∨ candidates = [] ∧ isDatabase = false) := by
  unfold judge
  cases hfound : view.firstComplete candidates with
  | some found =>
    obtain ⟨d, types⟩ := found
    simp
  | none =>
    rw [← List.any_eq_true]
    cases candidates.any view.awaits <;> simp

/-- No judgement declares a symbol. -/
theorem judge_ne_declared {view : View} {isDatabase : Bool} {candidates : List SymbolDefinition}
    (declared : List ValueType) : view.judge isDatabase candidates ≠ .declared declared := by
  unfold judge
  split
  · nofun
  · split <;> nofun

/-- Without complete candidate a symbol waits or is dead. -/
theorem judge_of_none {view : View} (isDatabase : Bool) {candidates : List SymbolDefinition}
    (hnone : view.firstComplete candidates = none) :
    view.judge isDatabase candidates = .pending ∨ view.judge isDatabase candidates = .dead := by
  unfold judge
  simp only [hnone]
  split
  · exact Or.inl rfl
  · exact Or.inr rfl

end View

namespace StorySymbol

/-- The types of parameters that were put together from types, names and directions. -/
theorem map_type_zipIdx {ps : List DefinitionParameter}
    {types : List (ValueType × Option ParameterRef)} (flow : Nat → Option Syntax.Flow) (k : Nat)
    (hlength : types.length = ps.length) :
    (((types.zip (ps.map (·.name))).zipIdx k).map fun (((type, origin), name), position) =>
      SymbolParameter.mk name type (flow position) origin).map (·.type) = types.map (·.1) := by
  -- The positions are counted on, so that the first one is arbitrary.
  induction types generalizing ps k with
  | nil => rfl
  | cons first rest ih =>
    cases ps with
    | nil => cases hlength
    | cons p ps => exact congrArg (first.1 :: ·) (ih (k + 1) (by simpa using hlength))

/-- The types of a symbol that has adopted a definition are those that were found for it. -/
theorem map_type_adopt {d : SymbolDefinition} {types : List (ValueType × Option ParameterRef)}
    (hlength : types.length = d.parameters.length) (s : StorySymbol) (index : Nat) :
    (s.adopt index d types).parameters.map (·.type) = types.map (·.1) :=
  map_type_zipIdx (s.statedFlow · (some d)) 0 hlength

end StorySymbol

namespace SymbolTable

variable {table : SymbolTable} {key : SymbolKey} {s : StorySymbol} {weights : Weights}

/-- A definition that is adopted in a settling has as many types as parameters. -/
theorem Settling.length_types (S : table.Settling weights) (hcovers : S.covers key)
    {d : SymbolDefinition} {types : List (ValueType × Option ParameterRef)}
    (hview : S.view key = .adopts d types) : types.length = d.parameters.length := by
  cases hget : table.get? key with
  | none =>
    rw [S.absent hcovers hget] at hview
    cases hview
  | some s =>
    cases hsystem : s.isSystem with
    | true =>
      rw [S.declared hcovers hget hsystem] at hview
      cases hview
    | false =>
      rw [S.judged hcovers hget hsystem, View.judge_eq_adopts] at hview
      exact View.length_complete (View.firstComplete_eq_some hview).2

/-- The types of a symbol that shows a judgement with types are those of the judgement. -/
theorem Settling.types_eq (S : table.Settling weights) (hcovers : S.covers key)
    (htyped : (S.view key).isTyped = true) (hshows : s.Shows (S.view key)) :
    s.parameters.map (·.type) = (S.view key).types := by
  cases hview : S.view key with
  | declared types =>
    rw [hview] at hshows
    exact hshows.2
  | adopts d types =>
    rw [hview] at hshows
    obtain ⟨index, -, hadopt⟩ := hshows
    rw [← hadopt]
    exact StorySymbol.map_type_adopt (S.length_types hcovers hview) s index
  | pending =>
    rw [hview] at htyped
    cases htyped
  | dead =>
    rw [hview] at htyped
    cases htyped

/-- A reference to a symbol finds the type that the symbol shows. -/
theorem typeAt_of_types {ref : ParameterRef} {types : List ValueType}
    (hget : table.get? ref.symbol = some s) (htypes : s.parameters.map (·.type) = types) :
    table.typeAt ref = types[ref.index]?.getD .unknown := by
  rw [typeAt, hget, ← htypes, List.getElem?_map]
  rfl

end SymbolTable

/-! ## What a walk is told

`p` is a symbol that is being walked below `chain`, and `r` one that it refers to. -/

namespace SymbolTable

variable {table : SymbolTable} {weights : Weights} {S : table.Settling weights}
  {chain : List SymbolKey} {p r : SymbolKey} {σ σ₁ σ' : Sweep} {verdict : Resolution}

/-- What the walk of `p` hears about `r`, next to how `p` sees it. -/
inductive Settling.Hears (S : table.Settling weights) (chain : List SymbolKey) (p r : SymbolKey)
    (verdict : Resolution) (σ₁ : Sweep) : Prop where
  | typed (htyped : (S.view.seenBy p r).isTyped = true) (hverdict : verdict = .resolved)
      (htypes : ∀ index, σ₁.table.typeAt ⟨r, index⟩
        = (S.view.seenBy p r).types[index]?.getD .unknown)
  | waits (hview : S.view.seenBy p r = .pending)
      (hverdict : verdict = .pending
        ∨ (verdict = .blocked ∧ (S.rank r < S.rank p → S.Excuse chain p)))
  | dead (hview : S.view.seenBy p r = .dead) (hverdict : verdict = .dead ∨ verdict = .blocked)

/-- What the chain reaches is passed on to those whom the symbol at its end needs. -/
theorem Settling.Reaches.cons (hreaches : S.Reaches chain p)
    (hneeds : table.Needs weights S.view p r) : S.Reaches (p :: chain) r := by
  intro other hmem hcovers
  rcases List.mem_cons.1 hmem with rfl | hmem
  · exact .single hneeds
  · exact (hreaches other hmem hcovers).tail hneeds

/-- The symbols on the chain are still being walked after an attempt. -/
theorem IsWalked.stays (h : IsWalked chain σ) (hstays : Resolving.Stays chain σ σ') :
    IsWalked chain σ' := by
  intro other hmem
  obtain ⟨s, hget, hflag, hpending⟩ := h other hmem
  exact ⟨s, (hstays.chain_eq other hmem).trans hget, hflag,
    fun h => hpending (hstays.forgets other hmem h)⟩

/-- Others are seen as they are. -/
theorem seenBy_of_ne {view : View} (hne : r ≠ p) : view.seenBy p r = view r := if_neg hne

/-- A walk hears about every symbol that it needs. -/
theorem Settling.hears (hcovers : S.covers p) (hreaches : S.Reaches chain p)
    (hneeds : table.Needs weights S.view p r) (hwalked : IsWalked (p :: chain) σ)
    (hattempt : Resolving.Attempt (p :: chain) r σ verdict σ₁) (hfollows : S.Follows σ₁)
    (hanswers : r ∉ p :: chain → S.Answers (p :: chain) r verdict) :
    S.Hears chain p r verdict σ₁ := by
  have hr : S.covers r := S.closed hcovers hneeds
  have hblocked : r ∈ p :: chain → verdict = .blocked := by
    intro hmem
    obtain ⟨s, hget, hflag, hpending⟩ := hwalked r hmem
    exact hattempt.looped s hget hflag hpending hmem
  by_cases heq : r = p
  · subst heq
    exact .dead (if_pos rfl) (Or.inr (hblocked List.mem_cons_self))
  have hseen : S.view.seenBy p r = S.view r := seenBy_of_ne heq
  by_cases hmem : r ∈ chain
  · -- The two symbols are on a circle, so neither gets types.
    have hverdict := hblocked (List.mem_cons_of_mem p hmem)
    have huntyped : (S.view r).isTyped = false := by
      by_contra htyped
      exact S.acyclic hr (by simpa using htyped) heq (hreaches r hmem hr) (.single hneeds)
    cases hview : S.view r with
    | declared types =>
      rw [hview] at huntyped
      cases huntyped
    | adopts d types =>
      rw [hview] at huntyped
      cases huntyped
    | pending =>
      exact .waits (hseen.trans hview)
        (Or.inr ⟨hverdict, fun hrank => ⟨r, hmem, hr, hview, hrank⟩⟩)
    | dead => exact .dead (hseen.trans hview) (Or.inr hverdict)
  · have hfresh : r ∉ p :: chain := by simp [heq, hmem]
    have hanswer := hanswers hfresh
    unfold Answers at hanswer
    have htyped (htyped : (S.view r).isTyped = true) (hverdict : verdict = .resolved) :
        S.Hears chain p r verdict σ₁ := by
      obtain ⟨s, hget, hsettled, -⟩ := hattempt.resolved hverdict
      have htypes := S.types_eq hr htyped (hfollows.settled hr hget hsettled)
      refine .typed (by rwa [hseen]) hverdict fun index => ?_
      rw [hseen]
      exact typeAt_of_types hget htypes
    cases hview : S.view r with
    | declared types =>
      rw [hview] at hanswer
      exact htyped (by rw [hview]; rfl) hanswer
    | adopts d types =>
      rw [hview] at hanswer
      exact htyped (by rw [hview]; rfl) hanswer
    | pending =>
      rw [hview] at hanswer
      refine .waits (hseen.trans hview) (hanswer.imp id fun ⟨hverdict, hexcuse⟩ => ⟨hverdict, ?_⟩)
      -- The symbol with the better reason cannot be the one that is walked.
      intro hrank
      obtain ⟨c, hc, hc_covers, hc_view, hc_rank⟩ := hexcuse
      rcases List.mem_cons.1 hc with rfl | hc
      · omega
      · exact ⟨c, hc, hc_covers, hc_view, by omega⟩
    | dead =>
      rw [hview] at hanswer
      exact .dead (hseen.trans hview) (hanswer.imp id And.left)

/-- What the walk of `p` finds for a definition, next to how `p` sees it. -/
inductive Settling.Completed (S : table.Settling weights) (chain : List SymbolKey) (p : SymbolKey)
    (parameters : List DefinitionParameter) : Completion → Prop where
  | ok {types : List (ValueType × Option ParameterRef)}
      (hview : (S.view.seenBy p).complete parameters = .ok types)
      (hbelow : (S.view.seenBelow S.rank p).complete parameters = .ok types) :
      Completed S chain p parameters (.ok types)
  | pending (hview : (S.view.seenBy p).complete parameters = .error .pending) :
      Completed S chain p parameters (.error .pending)
  | excused (hview : (S.view.seenBy p).complete parameters = .error .pending)
      (hexcuse : (S.view.seenBelow S.rank p).complete parameters = .error .pending →
        S.Excuse chain p) :
      Completed S chain p parameters (.error .blocked)
  | dead {why : Resolution} (hview : (S.view.seenBy p).complete parameters = .error .dead)
      (hbelow : (S.view.seenBelow S.rank p).complete parameters = .error .dead)
      (hwhy : why = .dead ∨ why = .blocked) :
      Completed S chain p parameters (.error why)

/-- A symbol with types is seen the same way from below. -/
theorem seenBelow_of_typed (rank : SymbolKey → Nat) {view : View}
    (htyped : (view.seenBy p r).isTyped = true) :
    view.seenBelow rank p r = view.seenBy p r := by
  refine if_neg fun ⟨hpending, _⟩ => ?_
  unfold View.seenBy at htyped
  split at htyped
  · cases htyped
  · rw [hpending] at htyped
    cases htyped

/-- A dead symbol is dead from below, too. -/
theorem seenBelow_of_dead {rank : SymbolKey → Nat} {view : View}
    (hdead : view.seenBy p r = .dead) : view.seenBelow rank p r = .dead := by
  unfold View.seenBelow
  split
  · rfl
  · exact hdead

/-- A symbol that waits with no lesser rank counts as dead from below. -/
theorem seenBelow_of_pending {rank : SymbolKey → Nat} {view : View}
    (hpending : view.seenBy p r = .pending) (hrank : rank p ≤ rank r) :
    view.seenBelow rank p r = .dead := by
  refine if_pos ⟨?_, hrank⟩
  unfold View.seenBy at hpending
  split at hpending
  · cases hpending
  · exact hpending

/-- A first parameter that has its type leaves the rest to decide. -/
theorem Settling.Completed.cons {q : DefinitionParameter}
    {rest : List DefinitionParameter} {c : Completion} {first : ValueType × Option ParameterRef}
    (h : S.Completed chain p rest c)
    (hview : (S.view.seenBy p).complete (q :: rest)
      = ((S.view.seenBy p).complete rest).map (first :: ·))
    (hbelow : (S.view.seenBelow S.rank p).complete (q :: rest)
      = ((S.view.seenBelow S.rank p).complete rest).map (first :: ·)) :
    S.Completed chain p (q :: rest) (c.map (first :: ·)) := by
  cases h with
  | ok hview' hbelow' =>
    rw [hview'] at hview
    rw [hbelow'] at hbelow
    exact .ok hview hbelow
  | pending hview' =>
    rw [hview'] at hview
    exact .pending hview
  | excused hview' hexcuse =>
    rw [hview'] at hview
    refine .excused hview fun hpending => hexcuse ?_
    rw [hbelow] at hpending
    cases hrest : (S.view.seenBelow S.rank p).complete rest with
    | ok types => simp [hrest, Except.map] at hpending
    | error why => simpa [hrest, Except.map] using hpending
  | dead hview' hbelow' hwhy =>
    rw [hview'] at hview
    rw [hbelow'] at hbelow
    exact .dead hview hbelow hwhy

end SymbolTable

/-! ## What the view finds

The loop over parameters, read off the view. There is one lemma for each way in which a parameter
can go. -/

namespace View

variable {view : View} {p : DefinitionParameter} {rest : List DefinitionParameter}
  {ref : ParameterRef}

/-- A type of its own is taken. -/
theorem complete_explicit {type : ValueType} (hsource : p.source = .explicit type) :
    view.complete (p :: rest) = (view.complete rest).map ((type, none) :: ·) := by
  rw [complete, hsource]

/-- A parameter that says nothing makes the definition wait. -/
theorem complete_unknown (hsource : p.source = .unknown) :
    view.complete (p :: rest) = .error .pending := by
  rw [complete, hsource]

/-- The type of another symbol is taken if it is known. -/
theorem complete_typed (hsource : p.source = .reference ref)
    (htyped : (view ref.symbol).isTyped = true) {type : ValueType}
    (htype : (view ref.symbol).types[ref.index]?.getD .unknown = type)
    (hknown : type.isKnown = true) :
    view.complete (p :: rest) = (view.complete rest).map ((type, some ref) :: ·) := by
  rw [complete, hsource]
  subst htype
  cases hview : view ref.symbol <;>
    simp_all [Judgement.typeAt, Judgement.isTyped]

/-- A definition waits if the type of the other symbol is not known. -/
theorem complete_untyped (hsource : p.source = .reference ref)
    (htyped : (view ref.symbol).isTyped = true) {type : ValueType}
    (htype : (view ref.symbol).types[ref.index]?.getD .unknown = type)
    (hknown : type.isKnown = false) : view.complete (p :: rest) = .error .pending := by
  rw [complete, hsource]
  subst htype
  cases hview : view ref.symbol <;>
    simp_all [Judgement.typeAt, Judgement.isTyped]

/-- A definition waits for a symbol that waits. -/
theorem complete_pending (hsource : p.source = .reference ref)
    (hview : view ref.symbol = .pending) : view.complete (p :: rest) = .error .pending := by
  rw [complete, hsource]
  simp only [hview]
  rfl

/-- A candidate that is not partial is looked at when it is the first. -/
theorem mem_examined {d : SymbolDefinition} {candidates : List SymbolDefinition}
    (hpartial : d.isPartial = false) : d ∈ view.examined (d :: candidates) := by
  rw [examined, if_neg (by simp [hpartial])]
  split <;> exact List.mem_cons_self

/-- A dead symbol makes the definition dead. -/
theorem complete_dead (hsource : p.source = .reference ref) (hview : view ref.symbol = .dead) :
    view.complete (p :: rest) = .error .dead := by
  rw [complete, hsource]
  simp only [hview]
  rfl

end View

namespace Resolving

open SymbolTable

variable {table : SymbolTable} {weights : Weights} {S : table.Settling weights}
  {chain : List SymbolKey} {p : SymbolKey} {σ σ' : Sweep}
  {R : SymbolKey → Sweep → Resolution → Sweep → Prop}

/-- An attempt keeps to a settling. A symbol that it leaves flagged is blocked, or else waits and
has fallen back. -/
def Keeps (S : table.Settling weights) (chain : List SymbolKey) (key : SymbolKey) (σ : Sweep)
    (verdict : Resolution) (σ' : Sweep) : Prop :=
  S.Follows σ → S.Reaches chain key → IsWalked chain σ →
    S.Follows σ' ∧ (S.covers key → key ∉ chain → S.Answers chain key verdict
      ∧ ∀ t, σ'.table.get? key = some t → t.needsUpdate = true →
        verdict = .blocked ∨ (verdict = .pending ∧ t.fallBack = t))

/-- Looking for the types of a definition finds what the view finds. -/
theorem Completes.follows
    (hR : ∀ r σ verdict σ₁, R r σ verdict σ₁ →
      Attempt (p :: chain) r σ verdict σ₁ ∧ Keeps S (p :: chain) r σ verdict σ₁)
    (hcovers : S.covers p) (hreaches : S.Reaches chain p)
    {parameters : List DefinitionParameter} {c : Completion} (h : Completes R parameters σ c σ')
    (hneeds : ∀ q ∈ parameters, ∀ ref, q.source = .reference ref →
      table.Needs weights S.view p ref.symbol)
    (hfollows : S.Follows σ) (hwalked : IsWalked (p :: chain) σ) :
    S.Follows σ' ∧ S.Completed chain p parameters c := by
  have hhears {ref σ verdict σ₁} (hneeds : table.Needs weights S.view p ref)
      (hattempt : R ref σ verdict σ₁) (hfollows : S.Follows σ) (hwalked : IsWalked (p :: chain) σ) :
      S.Follows σ₁ ∧ IsWalked (p :: chain) σ₁ ∧ S.Hears chain p ref verdict σ₁ := by
    obtain ⟨hframe, hkeeps⟩ := hR _ _ _ _ hattempt
    obtain ⟨hfollows₁, hanswers⟩ := hkeeps hfollows (hreaches.cons hneeds) hwalked
    exact ⟨hfollows₁, hwalked.stays hframe.toStays, S.hears hcovers hreaches hneeds hwalked hframe
      hfollows₁ fun hfresh => (hanswers (S.closed hcovers hneeds) hfresh).1⟩
  -- The ways of the loop. What is heard about a symbol is turned into what the view finds there.
  induction h with
  | nil => exact ⟨hfollows, .ok rfl rfl⟩
  | explicit hsource _ ih =>
    obtain ⟨hfollows', hrest⟩ :=
      ih (fun q hq => hneeds q (List.mem_cons_of_mem _ hq)) hfollows hwalked
    exact ⟨hfollows',
      hrest.cons (View.complete_explicit hsource) (View.complete_explicit hsource)⟩
  | unknown hsource => exact ⟨hfollows, .pending (View.complete_unknown hsource)⟩
  | @typed q rest ref _ _ _ _ hsource hattempt hknown _ ih =>
    obtain ⟨hfollows₁, hwalked₁, hhear⟩ :=
      hhears (hneeds _ List.mem_cons_self _ hsource) hattempt hfollows hwalked
    obtain ⟨hfollows', hrest⟩ :=
      ih (fun q hq => hneeds q (List.mem_cons_of_mem _ hq)) hfollows₁ hwalked₁
    refine ⟨hfollows', ?_⟩
    cases hhear with
    | typed htyped _ htypes =>
      have htype := (htypes ref.index).symm
      refine hrest.cons (View.complete_typed hsource htyped htype hknown) ?_
      have hbelow := seenBelow_of_typed S.rank htyped
      exact View.complete_typed hsource (hbelow ▸ htyped) (hbelow ▸ htype) hknown
    | waits _ hverdict => rcases hverdict with hverdict | ⟨hverdict, -⟩ <;> cases hverdict
    | dead _ hverdict => rcases hverdict with hverdict | hverdict <;> cases hverdict
  | untyped hsource hattempt hunknown =>
    obtain ⟨hfollows₁, -, hhear⟩ :=
      hhears (hneeds _ List.mem_cons_self _ hsource) hattempt hfollows hwalked
    refine ⟨hfollows₁, ?_⟩
    cases hhear with
    | typed htyped _ htypes =>
      exact .pending (View.complete_untyped hsource htyped (htypes _).symm hunknown)
    | waits _ hverdict => rcases hverdict with hverdict | ⟨hverdict, -⟩ <;> cases hverdict
    | dead _ hverdict => rcases hverdict with hverdict | hverdict <;> cases hverdict
  | failed hsource hattempt hwhy =>
    obtain ⟨hfollows₁, -, hhear⟩ :=
      hhears (hneeds _ List.mem_cons_self _ hsource) hattempt hfollows hwalked
    refine ⟨hfollows₁, ?_⟩
    cases hhear with
    | typed _ hverdict => exact absurd hverdict hwhy
    | waits hview hverdict =>
      rcases hverdict with rfl | ⟨rfl, hexcuse⟩
      · exact .pending (View.complete_pending hsource hview)
      · refine .excused (View.complete_pending hsource hview) fun hpending => hexcuse ?_
        -- Seen from below, only a symbol of less rank is still known to wait.
        by_contra hrank
        rw [View.complete_dead hsource (seenBelow_of_pending hview (Nat.le_of_not_lt hrank))]
          at hpending
        cases hpending
    | dead hview hverdict =>
      exact .dead (View.complete_dead hsource hview)
        (View.complete_dead hsource (seenBelow_of_dead hview)) hverdict


/-- What the walk of `p` finds among its candidates, next to how `p` sees them. -/
structure Searched (S : table.Settling weights) (chain : List SymbolKey) (p : SymbolKey)
    (candidates : List SymbolDefinition) (failures : Failures)
    (found : Option Adoption) (failures' : Failures) : Prop where
  found_eq : found.map (·.2) = (S.view.seenBy p).firstComplete candidates
  kept_pending : failures.pending = true → failures'.pending = true
  kept_blocked : failures.blocked = true → failures'.blocked = true
  /-- Nothing is waited for without a reason. -/
  awaited : failures'.pending = true →
    failures.pending = true ∨ ∃ d ∈ candidates, (S.view.seenBy p).awaits d = true
  /-- What is to be waited for is found out, or there is an excuse. -/
  excused : found = none → (∃ d ∈ candidates, (S.view.seenBelow S.rank p).awaits d = true) →
    failures'.pending = true ∨ (failures'.blocked = true ∧ S.Excuse chain p)

/-- A candidate that is not complete leaves the rest to decide. -/
theorem Searched.cons {d : SymbolDefinition} {rest : List SymbolDefinition}
    {failures failures' : Failures} {found : Option Adoption} {why : Resolution}
    (hpartial : d.isPartial = false) (hcompleted : S.Completed chain p d.parameters (.error why))
    (h : Searched S chain p rest (failures.add why) found failures') :
    Searched S chain p (d :: rest) failures found failures' := by
  have hview : ∃ why', (S.view.seenBy p).complete d.parameters = .error why' := by
    cases hcompleted <;> exact ⟨_, ‹_›⟩
  have hadd_pending : failures.pending = true → (failures.add why).pending = true := by
    cases why <;> simp +contextual [Failures.add]
  have hadd_blocked : failures.blocked = true → (failures.add why).blocked = true := by
    cases why <;> simp +contextual [Failures.add]
  -- A definition that fails leaves its reason with the rest: if it waits, the search waits, and if
  -- it was excused, what excused it is still on the chain.
  refine ⟨?_, h.kept_pending ∘ hadd_pending, h.kept_blocked ∘ hadd_blocked, fun hpending => ?_,
    fun hnone ⟨d', hd', hawaits⟩ => ?_⟩
  · obtain ⟨why', hview⟩ := hview
    rw [View.firstComplete, if_neg (by simp [hpartial]), hview]
    exact h.found_eq
  · rcases h.awaited hpending with hadded | ⟨d', hd', hawaits⟩
    · cases hcompleted with
      | pending hview =>
        exact Or.inr ⟨d, List.mem_cons_self, by simp [View.awaits, hview]⟩
      | excused => exact Or.inl hadded
      | dead _ _ hwhy => rcases hwhy with rfl | rfl <;> exact Or.inl hadded
    · exact Or.inr ⟨d', List.mem_cons_of_mem _ hd', hawaits⟩
  · rcases List.mem_cons.1 hd' with rfl | hd'
    · have hbelow : (S.view.seenBelow S.rank p).complete d'.parameters = .error .pending := by
        simpa [View.awaits, hpartial] using hawaits
      cases hcompleted with
      | pending => exact Or.inl (h.kept_pending rfl)
      | excused _ hexcuse => exact Or.inr ⟨h.kept_blocked rfl, hexcuse hbelow⟩
      | dead _ hdead =>
        rw [hbelow] at hdead
        cases hdead
    · exact h.excused hnone ⟨d', hd', hawaits⟩

/-- The search for a complete candidate finds the one that the view finds. -/
theorem Searches.follows
    (hR : ∀ r σ verdict σ₁, R r σ verdict σ₁ →
      Attempt (p :: chain) r σ verdict σ₁ ∧ Keeps S (p :: chain) r σ verdict σ₁)
    (hcovers : S.covers p) (hreaches : S.Reaches chain p)
    {candidates : List (Nat × SymbolDefinition)} {failures failures' : Failures}
    {found : Option Adoption} (h : Searches R candidates failures σ found failures' σ')
    (hneeds : ∀ d ∈ (S.view.seenBy p).examined (candidates.map (·.2)), ∀ other ∈ d.references,
      table.Needs weights S.view p other)
    (hfollows : S.Follows σ) (hwalked : IsWalked (p :: chain) σ) :
    S.Follows σ' ∧ Searched S chain p (candidates.map (·.2)) failures found failures' := by
  have hstays {parameters c} {σ₁ σ₂ : Sweep} (htypes : Completes R parameters σ₁ c σ₂)
      (hwalked : IsWalked (p :: chain) σ₁) : IsWalked (p :: chain) σ₂ :=
    hwalked.stays (htypes.stays fun _ _ _ _ hattempt => (hR _ _ _ _ hattempt).1.toStays)
  -- Along the candidates. The search goes on behind a definition only if that one is incomplete, so
  -- that the rest is examined too.
  induction h with
  | exhausted =>
    refine ⟨hfollows, rfl, id, id, Or.inl, fun _ ⟨d, hd, _⟩ => ?_⟩
    cases hd
  | @partly _ d _ _ _ _ _ _ hpartial _ ih =>
    rw [List.map_cons, View.examined, if_pos hpartial] at hneeds
    obtain ⟨hfollows', hrest⟩ := ih hneeds hfollows hwalked
    have hpending := hrest.kept_pending rfl
    refine ⟨hfollows', ?_, fun _ => hpending, hrest.kept_blocked,
      fun _ => Or.inr ⟨d, List.mem_cons_self, by simp [View.awaits, hpartial]⟩,
      fun _ _ => Or.inl hpending⟩
    rw [List.map_cons, View.firstComplete, if_pos hpartial]
    exact hrest.found_eq
  | @complete _ d _ _ _ _ _ hpartial htypes =>
    rw [List.map_cons] at hneeds ⊢
    obtain ⟨hfollows', hcompleted⟩ := htypes.follows hR hcovers hreaches
      (fun q hq ref href => hneeds d (View.mem_examined hpartial) _
        (SymbolDefinition.mem_references.2 ⟨q, hq, ref, href, rfl⟩)) hfollows hwalked
    refine ⟨hfollows', ?_, id, id, Or.inl, nofun⟩
    cases hcompleted with
    | ok hview =>
      rw [View.firstComplete, if_neg (by simp [hpartial]), hview]
      rfl
  | @incomplete _ d _ _ _ _ _ _ _ _ hpartial htypes _ ih =>
    rw [List.map_cons] at hneeds ⊢
    obtain ⟨hfollows₁, hcompleted⟩ := htypes.follows hR hcovers hreaches
      (fun q hq ref href => hneeds d (View.mem_examined hpartial) _
        (SymbolDefinition.mem_references.2 ⟨q, hq, ref, href, rfl⟩)) hfollows hwalked
    have hview : ∃ why', (S.view.seenBy p).complete d.parameters = .error why' := by
      cases hcompleted <;> exact ⟨_, ‹_›⟩
    obtain ⟨why', hview⟩ := hview
    rw [View.examined, if_neg (by simp [hpartial]), hview] at hneeds
    obtain ⟨hfollows', hrest⟩ := ih (fun d' hd' => hneeds d' (List.mem_cons_of_mem _ hd'))
      hfollows₁ (hstays htypes hwalked)
    exact ⟨hfollows', hrest.cons hpartial hcompleted⟩

end Resolving

end StoryCheck
