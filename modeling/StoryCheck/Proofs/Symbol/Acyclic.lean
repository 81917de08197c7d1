import StoryCheck.Proofs.Symbol.Settling

/-!
# Settling without circles

Where references that count never lead back, every symbol settles. The judgements are found from
below: a symbol is judged by those of less rank. References behind a candidate that says everything
by itself do not count, so a circle does no harm if a constant comes before it.

* **`leading`** — the candidates up to the first that says everything by itself.
* **`View.judge_congr`** — a judgement looks no further than the references of the leading
  candidates.
* **`viewBelow`** — the judgements of the symbols up to some rank.
* **`settles_of_rank`** — with ranks that go down along such references, every symbol settles.
-/

namespace StoryCheck

/-- A definition says everything by itself. -/
def SymbolDefinition.isSelfContained (d : SymbolDefinition) : Bool :=
  !d.isPartial && d.references.isEmpty

theorem SymbolDefinition.isPartial_of_isSelfContained {d : SymbolDefinition}
    (h : d.isSelfContained = true) : d.isPartial = false := by
  unfold isSelfContained at h
  simpa using (Bool.and_eq_true_iff.1 h).1

/-- The candidates up to the first that says everything by itself. -/
def leading : List SymbolDefinition → List SymbolDefinition
  | [] => []
  | d :: rest => if d.isSelfContained then [d] else d :: leading rest

theorem leading_sublist (candidates : List SymbolDefinition) :
    (leading candidates).Sublist candidates := by
  induction candidates with
  | nil => exact .slnil
  | cons d rest ih =>
    unfold leading
    split
    · exact (List.nil_sublist rest).cons_cons d
    · exact ih.cons_cons d

namespace View

variable {view view' : View}

theorem complete_congr {parameters : List DefinitionParameter}
    (h : ∀ p ∈ parameters, ∀ ref, p.source = .reference ref →
      view ref.symbol = view' ref.symbol) :
    view.complete parameters = view'.complete parameters := by
  induction parameters with
  | nil => rfl
  | cons p rest ih =>
    specialize ih fun q hq => h q (List.mem_cons_of_mem _ hq)
    unfold complete
    split
    · rw [ih]
    · rfl
    · next ref hsource => rw [h p List.mem_cons_self ref hsource, ih]

/-- Two views agree on what a definition refers to. -/
theorem complete_congr_of_references {d : SymbolDefinition}
    (h : ∀ other ∈ d.references, view other = view' other) :
    view.complete d.parameters = view'.complete d.parameters :=
  complete_congr fun p hp ref href =>
    h ref.symbol (SymbolDefinition.mem_references.2 ⟨p, hp, ref, href, rfl⟩)

/-- A definition that says everything by itself is complete in every view. -/
theorem complete_of_isSelfContained (view : View) {d : SymbolDefinition} (h : d.isSelfContained = true) :
    ∃ types, view.complete d.parameters = .ok types := by
  unfold SymbolDefinition.isSelfContained at h
  rw [Bool.and_eq_true, Bool.not_eq_true', List.isEmpty_iff] at h
  obtain ⟨hpartial, hreferences⟩ := h
  -- A definition that is whole and refers to nothing states each of its types.
  have hexplicit : ∀ p ∈ d.parameters, ∃ type, p.source = .explicit type := by
    intro p hp
    cases hsource : p.source with
    | explicit type => exact ⟨type, rfl⟩
    | unknown => exact absurd hsource (SymbolDefinition.source_ne_unknown hpartial hp)
    | reference ref =>
      have hmem := SymbolDefinition.mem_references.2 ⟨p, hp, ref, hsource, rfl⟩
      rw [hreferences] at hmem
      cases hmem
  generalize d.parameters = parameters at hexplicit
  induction parameters with
  | nil => exact ⟨[], rfl⟩
  | cons p rest ih =>
    obtain ⟨type, hsource⟩ := hexplicit p List.mem_cons_self
    obtain ⟨types, htypes⟩ := ih fun q hq => hexplicit q (List.mem_cons_of_mem _ hq)
    refine ⟨(type, none) :: types, ?_⟩
    unfold complete
    rw [hsource, htypes]
    rfl

theorem firstComplete_congr {candidates : List SymbolDefinition}
    (h : ∀ d ∈ leading candidates, ∀ other ∈ d.references, view other = view' other) :
    view.firstComplete candidates = view'.firstComplete candidates := by
  induction candidates with
  | nil => rfl
  | cons d rest ih =>
    unfold leading at h
    unfold firstComplete
    by_cases hself : d.isSelfContained = true
    · -- The search ends here, whatever the views are.
      rw [if_pos hself] at h
      have hpartial := SymbolDefinition.isPartial_of_isSelfContained hself
      obtain ⟨types, htypes⟩ := complete_of_isSelfContained view hself
      have hsame := complete_congr_of_references (h d List.mem_cons_self)
      rw [← hsame, htypes, hpartial]
      rfl
    · rw [if_neg hself] at h
      rw [ih fun e he => h e (List.mem_cons_of_mem _ he),
        complete_congr_of_references (h d List.mem_cons_self)]

/-- Where nothing is complete, all candidates lead. -/
theorem leading_eq_self {candidates : List SymbolDefinition}
    (h : view.firstComplete candidates = none) : leading candidates = candidates := by
  induction candidates with
  | nil => rfl
  | cons d rest ih =>
    unfold firstComplete at h
    unfold leading
    by_cases hself : d.isSelfContained = true
    · obtain ⟨types, htypes⟩ := complete_of_isSelfContained view hself
      have hpartial := SymbolDefinition.isPartial_of_isSelfContained hself
      rw [hpartial, htypes] at h
      cases h
    · rw [if_neg hself]
      refine congrArg (d :: ·) (ih ?_)
      split at h
      · exact h
      · split at h
        · cases h
        · exact h

/-- **A judgement looks no further than the references of the leading candidates.** -/
theorem judge_congr {candidates : List SymbolDefinition} (isDatabase : Bool)
    (h : ∀ d ∈ leading candidates, ∀ other ∈ d.references, view other = view' other) :
    view.judge isDatabase candidates = view'.judge isDatabase candidates := by
  have hfound := firstComplete_congr h
  unfold judge
  cases hnone : view.firstComplete candidates with
  | some found => rw [← hfound, hnone]
  | none =>
    rw [leading_eq_self hnone] at h
    have hany : candidates.any view.awaits = candidates.any view'.awaits := by
      rw [Bool.eq_iff_iff, List.any_eq_true, List.any_eq_true]
      refine exists_congr fun d => and_congr_right fun hd => ?_
      unfold awaits
      rw [complete_congr_of_references (h d hd)]
    rw [← hfound, hnone, hany]

/-- What is looked at leads. -/
theorem mem_leading_of_examined {candidates : List SymbolDefinition} {d : SymbolDefinition}
    (hd : d ∈ view.examined candidates) : d ∈ leading candidates := by
  induction candidates with
  | nil => cases hd
  | cons first rest ih =>
    unfold leading
    unfold examined at hd
    by_cases hself : first.isSelfContained = true
    · obtain ⟨types, htypes⟩ := complete_of_isSelfContained view hself
      rw [if_pos hself]
      have hpartial := SymbolDefinition.isPartial_of_isSelfContained hself
      rwa [hpartial, htypes] at hd
    · rw [if_neg hself]
      split at hd
      · exact List.mem_cons_of_mem _ (ih hd)
      · split at hd
        · exact List.mem_cons.2 (Or.inl (List.mem_singleton.1 hd))
        · rcases List.mem_cons.1 hd with rfl | hd
          · exact List.mem_cons_self
          · exact List.mem_cons_of_mem _ (ih hd)

end View

namespace SymbolTable

variable {table : SymbolTable} {key other : SymbolKey} {s : StorySymbol} {weights : Weights}
  {rank : SymbolKey → Nat}

/-- Ranks go down along the references of leading candidates to other symbols. -/
def IsRankedBy (table : SymbolTable) (weights : Weights) (rank : SymbolKey → Nat) : Prop :=
  ∀ s ∈ table.symbols, ∀ d ∈ leading (s.ranked weights), ∀ other ∈ d.references,
    other = s.key ∨ rank other < rank s.key

/-- Ranks can be checked. -/
theorem isRankedBy_of_all (h : (table.symbols.all fun s => (leading (s.ranked weights)).all fun d =>
    d.references.all fun other => decide (other = s.key ∨ rank other < rank s.key)) = true) :
    table.IsRankedBy weights rank := by
  intro s hs d hd other hother
  have hsymbol := List.all_eq_true.1 h s hs
  have hdefinition := List.all_eq_true.1 hsymbol d hd
  exact of_decide_eq_true (List.all_eq_true.1 hdefinition other hother)

/-- The judgements of the symbols up to some rank. -/
def viewBelow (table : SymbolTable) (weights : Weights) : (room : Nat) → View
  | 0, _ => .dead
  | room + 1, key =>
    match table.get? key with
    | none => .dead
    | some s =>
      if s.isSystem then .declared (s.parameters.map (·.type))
      else ((viewBelow table weights room).seenBy key).judge s.isDatabase (s.ranked weights)

/-- A symbol refers to itself or to symbols of less rank. -/
theorem IsRankedBy.of_ranked (h : table.IsRankedBy weights rank) (hget : table.get? key = some s)
    {d : SymbolDefinition} (hd : d ∈ leading (s.ranked weights)) (hother : other ∈ d.references) :
    other = key ∨ rank other < rank key := by
  have := h s (mem_symbols_of_get? hget) d hd other hother
  rwa [key_of_get? hget] at this

/-- A symbol is judged alike in views that agree on the symbols of less rank. -/
theorem IsRankedBy.judge_eq (h : table.IsRankedBy weights rank) (hget : table.get? key = some s)
    {view view' : View} (hself : view key = view' key)
    (hbelow : ∀ other, other ≠ key → rank other < rank key → view other = view' other) :
    view.judge s.isDatabase (s.ranked weights) = view'.judge s.isDatabase (s.ranked weights) := by
  refine View.judge_congr _ fun d hd other hother => ?_
  by_cases heq : other = key
  · rw [heq, hself]
  · rcases h.of_ranked hget hd hother with hkey | hrank
    · exact absurd hkey heq
    · exact hbelow other heq hrank

/-- More room does not change a judgement. -/
theorem IsRankedBy.viewBelow_eq (h : table.IsRankedBy weights rank) {room room' : Nat}
    (hroom : rank key < room) (hroom' : rank key < room') :
    table.viewBelow weights room key = table.viewBelow weights room' key := by
  induction room generalizing key room' with
  | zero => exact absurd hroom (Nat.not_lt_zero _)
  | succ room ih =>
    cases room' with
    | zero => exact absurd hroom' (Nat.not_lt_zero _)
    | succ room' =>
      unfold viewBelow
      cases hget : table.get? key with
      | none => rfl
      | some s =>
        dsimp only
        split
        · rfl
        · refine h.judge_eq hget (by simp [View.seenBy]) fun other hne hrank => ?_
          simp only [View.seenBy, if_neg hne]
          exact ih (by omega) (by omega)

theorem needs_rank (h : table.IsRankedBy weights rank) {view : View}
    (hneeds : Relation.TransGen (table.Needs weights view) key other) :
    other = key ∨ rank other < rank key := by
  have hstep {a b : SymbolKey} (hneeds : table.Needs weights view a b) :
      b = a ∨ rank b < rank a := by
    obtain ⟨s, hget, -, d, hd, hother⟩ := hneeds
    exact h.of_ranked hget (View.mem_leading_of_examined hd) hother
  induction hneeds with
  | single hneeds => exact hstep hneeds
  | tail _ hneeds ih =>
    rcases hstep hneeds with rfl | hlt
    · exact ih
    · rcases ih with rfl | hlt'
      · exact Or.inr hlt
      · exact Or.inr (by omega)

/-- A view in which every symbol is judged by itself settles all of them, as ranks leave no room for
circles. -/
def IsRankedBy.settling (h : table.IsRankedBy weights rank) (view : View)
    (habsent : ∀ {key}, table.get? key = none → view key = .dead)
    (hdeclared : ∀ {key s}, table.get? key = some s → s.isSystem = true →
      view key = .declared (s.parameters.map (·.type)))
    (hjudged : ∀ {key s}, table.get? key = some s → s.isSystem = false →
      view key = (view.seenBy key).judge s.isDatabase (s.ranked weights)) :
    table.Settling weights where
  covers _ := True
  view := view
  rank := rank
  absent _ := habsent
  declared _ := hdeclared
  judged _ := hjudged
  grounded {key s} _ hget hsystem hpending := by
    rw [← hpending, hjudged hget hsystem]
    refine h.judge_eq hget ?_ fun other hne hrank => ?_
    · simp [View.seenBelow, View.seenBy]
    · have hrank' : ¬ rank key ≤ rank other := Nat.not_le.2 hrank
      simp [View.seenBelow, hrank']
  closed _ _ := trivial
  acyclic {key other} _ _ hne hneeds hback := by
    rcases needs_rank h hneeds with rfl | hlt
    · exact hne rfl
    · rcases needs_rank h hback with rfl | hlt'
      · exact hne rfl
      · omega

/-- **Without circles every symbol settles.** -/
theorem settles_of_rank (h : table.IsRankedBy weights rank) (key : SymbolKey) :
    table.Settles weights key := by
  let view : View := fun key => table.viewBelow weights (rank key + 1) key
  refine ⟨h.settling view (fun {key} hnone => ?_) (fun {key s} hget hsystem => ?_)
    fun {key s} hget hsystem => ?_, trivial⟩
  · show table.viewBelow weights (rank key + 1) key = _
    unfold viewBelow
    rw [hnone]
  · show table.viewBelow weights (rank key + 1) key = _
    unfold viewBelow
    simp [hget, hsystem]
  · show table.viewBelow weights (rank key + 1) key = _
    unfold viewBelow
    simp only [hget, hsystem, Bool.false_eq_true, if_false]
    refine h.judge_eq hget (by simp [View.seenBy]) fun other hne hrank => ?_
    simp only [View.seenBy, if_neg hne]
    exact h.viewBelow_eq hrank (Nat.lt_succ_self _)

end SymbolTable

end StoryCheck
