import Mathlib.Data.List.Perm.Basic
import StoryCheck.Proofs.Lists
import StoryCheck.Proofs.Symbol.Contributions
import StoryCheck.Proofs.Symbol.SettledUpdate

/-!
# Tables that hold the same goals

Two tables that hold the same goals may have their symbols, and the definitions of a symbol, in
different orders. Resolution sees little of that: it ranks the definitions of a symbol by goal and
place, the sort is stable, and no two goals share a weight.

* **`mergeSort_eq_of_filter`** — a stable sort depends on nothing but the order within each class of
  elements that count as equal.
* **`Alike`** — symbols that differ only in how the contributions of different goals are mixed.
* **`Holds.alike`** — tables that hold the same goals are alike.
* **`Alike.settling`** — alike tables have the same settlings.
-/

namespace StoryCheck

/-! ## Stable sorting

A stable sort keeps the order of what it cannot tell apart. Two lists are sorted to the same if they
agree, in order, on each class of such items. -/

section Sorting

variable {α : Type} {le : α → α → Bool}

/-- Sorted lists are equal if they agree within each class. -/
theorem eq_of_filter_eq (total : ∀ a b, le a b || le b a) {l₁ l₂ : List α}
    (h₁ : l₁.Pairwise (le · ·)) (h₂ : l₂.Pairwise (le · ·))
    (h : ∀ c, (l₁.filter fun a => le a c && le c a) = l₂.filter fun a => le a c && le c a) :
    l₁ = l₂ := by
  have hself (a : α) : le a a = true := by simpa using total a a
  induction l₁ generalizing l₂ with
  | nil =>
    cases l₂ with
    | nil => rfl
    | cons b rest =>
      have hb := h b
      simp [hself] at hb
  | cons a rest₁ ih =>
    have ha_mem : a ∈ l₂ := by
      have hmem : a ∈ (a :: rest₁).filter fun x => le x a && le a x :=
        List.mem_filter.2 ⟨List.mem_cons_self, by simp [hself]⟩
      rw [h a] at hmem
      exact (List.mem_filter.1 hmem).1
    cases l₂ with
    | nil => cases ha_mem
    | cons b rest₂ =>
      have hb_mem : b ∈ a :: rest₁ := by
        have hmem : b ∈ (b :: rest₂).filter fun x => le x b && le b x :=
          List.mem_filter.2 ⟨List.mem_cons_self, by simp [hself]⟩
        rw [← h b] at hmem
        exact (List.mem_filter.1 hmem).1
      obtain ⟨hhead₁, hrest₁⟩ := List.pairwise_cons.1 h₁
      obtain ⟨hhead₂, hrest₂⟩ := List.pairwise_cons.1 h₂
      have hab : le a b = true := by
        rcases List.mem_cons.1 hb_mem with rfl | hmem
        · exact hself b
        · exact hhead₁ b hmem
      have hba : le b a = true := by
        rcases List.mem_cons.1 ha_mem with rfl | hmem
        · exact hself a
        · exact hhead₂ a hmem
      -- Both heads are the first of their common class.
      have hheads := h a
      simp only [List.filter_cons, hself, hab, hba, Bool.and_self, if_true,
        List.cons.injEq] at hheads
      obtain ⟨rfl, -⟩ := hheads
      refine congrArg (a :: ·) (ih hrest₁ hrest₂ fun c => ?_)
      have hc := h c
      simp only [List.filter_cons] at hc
      split at hc
      · exact (List.cons.inj hc).2
      · exact hc

/-- Sorting keeps the order within each class. -/
theorem filter_mergeSort (trans : ∀ a b c, le a b → le b c → le a c)
    (total : ∀ a b, le a b || le b a) (l : List α) (c : α) :
    ((l.mergeSort le).filter fun a => le a c && le c a) = l.filter fun a => le a c && le c a := by
  have hpairwise : (l.filter fun a => le a c && le c a).Pairwise (le · ·) := by
    refine List.pairwise_of_forall_mem_list fun a ha b hb => ?_
    have ha := (List.mem_filter.1 ha).2
    have hb := (List.mem_filter.1 hb).2
    rw [Bool.and_eq_true] at ha hb
    exact trans a c b ha.1 hb.2
  exact filter_mergeSort_of_pairwise trans total hpairwise

/-- **A stable sort depends only on the order within each class.** -/
theorem mergeSort_eq_of_filter (trans : ∀ a b c, le a b → le b c → le a c)
    (total : ∀ a b, le a b || le b a) {l₁ l₂ : List α}
    (h : ∀ c, (l₁.filter fun a => le a c && le c a) = l₂.filter fun a => le a c && le c a) :
    l₁.mergeSort le = l₂.mergeSort le := by
  refine eq_of_filter_eq total (List.pairwise_mergeSort trans total l₁)
    (List.pairwise_mergeSort trans total l₂) fun c => ?_
  rw [filter_mergeSort trans total, filter_mergeSort trans total, h c]

end Sorting

/-! ## Ranking definitions

Definitions are ranked by goal and then by place. Those of one goal are listed in one order in all
tables, so that how goals are mixed is lost in the ranking, provided that weights tell goals apart. -/

namespace SymbolDefinition

/-- A definition does not come after another one: goals of less weight come first, and in a goal
what stands first. -/
def ranksBefore (weights : Weights) (a b : SymbolDefinition) : Bool :=
  ((compare (weights.of a.goal) (weights.of b.goal)).then
    (compare a.span.start b.span.start)).isLE

variable {weights : Weights} {a b c : SymbolDefinition}

/-- Definitions are ranked by the weight of their goal and then by place. -/
theorem ranksBefore_iff : ranksBefore weights a b = true
    ↔ weights.of a.goal < weights.of b.goal
      ∨ (weights.of a.goal = weights.of b.goal ∧ a.span.start ≤ b.span.start) := by
  rw [ranksBefore, Ordering.isLE_then_iff_or, Nat.compare_eq_lt, Nat.compare_eq_eq,
    Nat.isLE_compare]

/-- Ranking is transitive. -/
theorem ranksBefore_trans (a b c : SymbolDefinition) (hab : ranksBefore weights a b)
    (hbc : ranksBefore weights b c) : ranksBefore weights a c := by
  rw [ranksBefore_iff] at hab hbc ⊢
  omega

/-- Of two definitions one is not ranked behind the other. -/
theorem ranksBefore_total (a b : SymbolDefinition) :
    ranksBefore weights a b || ranksBefore weights b a := by
  rw [Bool.or_eq_true, ranksBefore_iff, ranksBefore_iff]
  omega

/-- Definitions of one rank are in goals of one weight. -/
theorem weight_eq_of_rank (h : (ranksBefore weights a b && ranksBefore weights b a) = true) :
    weights.of a.goal = weights.of b.goal := by
  rw [Bool.and_eq_true, ranksBefore_iff, ranksBefore_iff] at h
  omega

end SymbolDefinition

namespace StorySymbol

open SymbolDefinition

variable {s t : StorySymbol} {weights : Weights}

/-- Candidates are ranked without regard to their places. -/
theorem ranked_eq (s : StorySymbol) (weights : Weights) :
    s.ranked weights
      = (s.definitions.filter fun d => !s.isDatabase || d.access == .write).mergeSort
          (ranksBefore weights) := by
  unfold ranked candidates
  dsimp only
  refine (List.map_mergeSort (s := ranksBefore weights) fun _ _ _ _ => rfl).trans ?_
  congr 1
  have hplaces : (s.definitions.zipIdx.map fun place => (place.2, place.1)).map (·.2)
      = s.definitions := by
    rw [List.map_map]
    exact List.zipIdx_map_fst 0 s.definitions
  conv_rhs => rw [← hplaces, List.filter_map]
  rfl

/-- The definitions of two symbols agree goal by goal. -/
def AgreeByGoal (s t : StorySymbol) : Prop :=
  ∀ name, (s.definitions.filter fun d => d.goal == name)
    = t.definitions.filter fun d => d.goal == name

/-- Symbols that agree goal by goal have the same definitions up to order. -/
theorem AgreeByGoal.perm (h : s.AgreeByGoal t) : s.definitions.Perm t.definitions := by
  refine List.perm_iff_count.2 fun d => ?_
  have hcount := congrArg (List.count d) (h d.goal)
  rwa [List.count_filter (by simp), List.count_filter (by simp)] at hcount

/-- **Symbols that agree goal by goal rank alike**, if no two goals share a weight. -/
theorem AgreeByGoal.ranked_eq (h : s.AgreeByGoal t) (hkey : s.key = t.key)
    (hweights : ∀ a ∈ s.definitions, ∀ b ∈ s.definitions,
      weights.of a.goal = weights.of b.goal → a.goal = b.goal) :
    s.ranked weights = t.ranked weights := by
  have hdatabase : s.isDatabase = t.isDatabase := by
    unfold isDatabase name
    rw [hkey]
  rw [StorySymbol.ranked_eq, StorySymbol.ranked_eq, hdatabase]
  -- Rank by rank: what ranks alike keeps the order in which it is listed.
  refine mergeSort_eq_of_filter ranksBefore_trans ranksBefore_total fun c => ?_
  rw [List.filter_filter, List.filter_filter]
  by_cases hsome : ∃ d ∈ s.definitions, (ranksBefore weights d c && ranksBefore weights c d) = true
  · -- All definitions of the rank are in one goal, where the two symbols agree.
    obtain ⟨d, hd, hrank⟩ := hsome
    have hgoal {a : SymbolDefinition} (ha : a ∈ s.definitions)
        (hrank' : (ranksBefore weights a c && ranksBefore weights c a) = true) :
        a.goal = d.goal :=
      hweights a ha d hd ((weight_eq_of_rank hrank').trans (weight_eq_of_rank hrank).symm)
    have honly (l : List SymbolDefinition) (hl : ∀ a ∈ l, a ∈ s.definitions) :
        (l.filter fun a => (ranksBefore weights a c && ranksBefore weights c a)
            && (!t.isDatabase || a.access == .write))
          = (l.filter fun a => a.goal == d.goal).filter fun a =>
            (ranksBefore weights a c && ranksBefore weights c a)
              && (!t.isDatabase || a.access == .write) := by
      rw [List.filter_filter]
      refine List.filter_congr fun a ha => ?_
      cases hrank' : ranksBefore weights a c && ranksBefore weights c a with
      | false => rfl
      | true => simp [hgoal (hl a ha) hrank']
    rw [honly _ fun _ ha => ha, honly _ fun a ha => h.perm.mem_iff.2 ha, h d.goal]
  · have hnone (l : List SymbolDefinition) (hl : ∀ a ∈ l, a ∈ s.definitions) :
        (l.filter fun a => (ranksBefore weights a c && ranksBefore weights c a)
            && (!t.isDatabase || a.access == .write)) = [] := by
      refine List.filter_eq_nil_iff.2 fun a ha hrank => hsome ⟨a, hl a ha, ?_⟩
      exact (Bool.and_eq_true_iff.1 hrank).1
    rw [hnone _ fun _ ha => ha, hnone _ fun a ha => h.perm.mem_iff.2 ha]

end StorySymbol

/-! ## What definitions agree on

A type or a kind on which all definitions agree is found by comparing the others with the first.
Which is the first does not matter. -/

/-- Whether all elements are the same does not hang on the order, and neither does which they are. -/
theorem forall_eq_head_of_perm {α : Type} {a b : α} {as bs : List α}
    (h : (a :: as).Perm (b :: bs)) (hall : ∀ x ∈ as, x = a) : a = b ∧ ∀ x ∈ bs, x = b := by
  have hsame {x : α} (hx : x ∈ b :: bs) : x = a := by
    rcases List.mem_cons.1 (h.mem_iff.2 hx) with rfl | hx
    · rfl
    · exact hall x hx
  have hab : b = a := hsame List.mem_cons_self
  exact ⟨hab.symm, fun x hx => (hsame (List.mem_cons_of_mem _ hx)).trans hab.symm⟩

namespace StorySymbol

variable {s t : StorySymbol}

/-- The type on which a list agrees does not depend on its order. -/
theorem agreedType_perm {l₁ l₂ : List ValueType} (h : l₁.Perm l₂) :
    agreedType l₁ = agreedType l₂ := by
  cases l₁ with
  | nil => rw [h.nil_eq]
  | cons a as =>
    cases l₂ with
    | nil => cases h.eq_nil
    | cons b bs =>
      show (if as.all (· == a) then a else .invalid) = if bs.all (· == b) then b else .invalid
      by_cases hall : ∀ x ∈ as, x = a
      · obtain ⟨rfl, hall'⟩ := forall_eq_head_of_perm h hall
        have has : as.all (· == a) = true := by simpa using hall
        have hbs : bs.all (· == a) = true := by simpa using hall'
        rw [has, hbs]
      · have hall' : ¬ ∀ x ∈ bs, x = b := fun hbs => hall (forall_eq_head_of_perm h.symm hbs).2
        have has : as.all (· == a) = false := by simpa using hall
        have hbs : bs.all (· == b) = false := by simpa using hall'
        rw [has, hbs]
        rfl

/-- The types agreed on are the same for the same definitions. -/
theorem agreedType_eq (h : s.definitions.Perm t.definitions) (index : Nat) :
    agreedType (s.explicitTypes index) = agreedType (t.explicitTypes index) :=
  agreedType_perm (h.filterMap _)

/-- The kind agreed on is the same for the same definitions. -/
theorem statedKind_eq (h : s.definitions.Perm t.definitions) : s.statedKind = t.statedKind := by
  unfold statedKind hasKindConflict
  cases hs : s.definitions with
  | nil =>
    rw [hs] at h
    rw [← h.nil_eq]
  | cons a as =>
    cases ht : t.definitions with
    | nil =>
      rw [hs, ht] at h
      cases h.eq_nil
    | cons b bs =>
      rw [hs, ht] at h
      have hkinds := h.map (·.kind)
      show (if as.any (fun e => e.kind != a.kind) then SymbolKind.unknown else a.kind)
        = if bs.any (fun e => e.kind != b.kind) then .unknown else b.kind
      -- If all have the kind of the first one, any of them may come first; if not, the kinds are in
      -- conflict in both.
      by_cases hall : ∀ x ∈ as.map (·.kind), x = a.kind
      · obtain ⟨hkind, hall'⟩ := forall_eq_head_of_perm hkinds hall
        have has : as.any (fun e => e.kind != a.kind) = false := by simpa using hall
        have hbs : bs.any (fun e => e.kind != b.kind) = false := by simpa using hall'
        rw [has, hbs]
        exact hkind
      · have hall' : ¬ ∀ x ∈ bs.map (·.kind), x = b.kind :=
          fun hbs => hall (forall_eq_head_of_perm hkinds.symm hbs).2
        have has : as.any (fun e => e.kind != a.kind) = true := by simpa using hall
        have hbs : bs.any (fun e => e.kind != b.kind) = true := by simpa using hall'
        rw [has, hbs]
        rfl

/-- A symbol that has fallen back has the types on which its definitions agree. -/
theorem types_of_fallBack (h : s.fallBack = s) :
    s.parameters.map (·.type)
      = (List.range s.parameters.length).map fun index => agreedType (s.explicitTypes index) := by
  refine List.ext_getElem? fun index => ?_
  rw [List.getElem?_map, List.getElem?_map]
  have hparameter := getElem?_parameters_fallBack s index
  rw [h] at hparameter
  by_cases hindex : index < s.parameters.length
  · rw [List.getElem?_range hindex, hparameter, List.getElem?_eq_getElem hindex]
    rfl
  · rw [List.getElem?_eq_none (Nat.le_of_not_lt hindex), List.getElem?_eq_none (by simpa using hindex)]
    rfl

/-- The types of a symbol that has adopted a definition. -/
theorem types_adopt (s : StorySymbol) (index : Nat) (d : SymbolDefinition)
    (types : List (ValueType × Option ParameterRef)) :
    (s.adopt index d types).parameters.map (·.type)
      = (types.zip (d.parameters.map (·.name))).map (·.1.1) := by
  unfold adopt
  dsimp only
  rw [List.map_map]
  conv_rhs => rw [← List.zipIdx_map_fst 0 (types.zip _), List.map_map]
  rfl

end StorySymbol

/-! ## Alike symbols

Types, kinds and the ranking are all that a verdict is made from. Two symbols that agree in these
come to the same, even if their definitions are listed differently. -/

namespace StorySymbol

/-- What became of a symbol: its verdict, its types and the definition that it adopted. -/
def outcome (s : StorySymbol) : Resolution × List ValueType × Option (String × Span) :=
  (s.resolution, s.parameters.map (·.type),
    s.canonicalDefinition?.map fun d => (d.goal, d.span))

/-- Two symbols that differ only in how the contributions of different goals are mixed. -/
structure Alike (weights : Weights) (s t : StorySymbol) : Prop where
  key : s.key = t.key
  isSystem : s.isSystem = t.isSystem
  kind : s.kind = t.kind
  declared : s.isSystem = true → s.verdict = t.verdict
  inferred : s.isSystem = false → s.AgreeByGoal t ∧ s.ranked weights = t.ranked weights
    ∧ s.parameters.length = t.parameters.length

/-- **Alike symbols that show one judgement have come to the same.** -/
theorem Alike.outcome_eq {weights : Weights} {s t : StorySymbol} {j : Judgement}
    (h : s.Alike weights t) (hsystem : s.isSystem = false) (hj : ∀ types, j ≠ .declared types)
    (hs : s.Shows j) (ht : t.Shows j) :
    s.outcome = t.outcome := by
  obtain ⟨hagree, -, hlength⟩ := h.inferred hsystem
  -- What falls back takes the types on which all definitions agree, in whatever order they are.
  have hfallen (hs : s.fallBack = s) (ht : t.fallBack = t) (hresolution : s.resolution = t.resolution) :
      s.outcome = t.outcome := by
    have hcanonical {u : StorySymbol} (hu : u.fallBack = u) : u.canonicalDefinition? = none := by
      rw [← hu]
      rfl
    unfold outcome
    rw [hresolution, types_of_fallBack hs, types_of_fallBack ht, hcanonical hs, hcanonical ht,
      hlength]
    simp only [agreedType_eq hagree.perm]
  cases j with
  | declared types => exact absurd rfl (hj types)
  | adopts d types =>
    -- What adopts a definition takes its types and names, whatever its place in the list.
    have hadopted {u : StorySymbol} {index : Nat} (hd : u.definitions[index]? = some d)
        (hu : u.adopt index d types = u) : u.outcome
          = (.resolved, (types.zip (d.parameters.map (·.name))).map (·.1.1), some (d.goal, d.span)) := by
      have hcanonical : u.canonicalDefinition? = some d := by
        rw [← hu]
        exact hd
      have hresolution : u.resolution = .resolved := hu ▸ resolution_adopt u index d types
      have htypes : u.parameters.map (·.type) = (types.zip (d.parameters.map (·.name))).map (·.1.1) :=
        hu ▸ types_adopt u index d types
      rw [outcome, hcanonical, hresolution, htypes]
      rfl
    obtain ⟨m, hm, hs⟩ := hs
    obtain ⟨n, hn, ht⟩ := ht
    rw [hadopted hm hs, hadopted hn ht]
  | pending | dead => exact hfallen hs.2 ht.2 (hs.1.trans ht.1.symm)

/-! ### Directions

The direction of a parameter is that of the adopted definition, or else the first that any definition
states. Which is the first hangs on how the goals are mixed, unless all that state one agree. -/

/-- The directions of the parameters. -/
def flows (s : StorySymbol) : List (Option Syntax.Flow) := s.parameters.map (·.flow)

/-- No two definitions state different directions for a parameter. -/
def AgreesOnFlow (s : StorySymbol) : Prop :=
  ∀ index, ∀ d ∈ s.definitions, ∀ e ∈ s.definitions, ∀ f g,
    flowAt index d = some f → flowAt index e = some g → f = g

/-- The first thing that is found does not depend on the order if all that can be found is the same. -/
theorem findSome?_eq_of_perm {α β : Type} {f : α → Option β} {l₁ l₂ : List α} (h : l₁.Perm l₂)
    (hagree : ∀ x ∈ l₁, ∀ y ∈ l₁, ∀ a b, f x = some a → f y = some b → a = b) :
    l₁.findSome? f = l₂.findSome? f := by
  cases hfirst : l₁.findSome? f with
  | none =>
    refine (List.findSome?_eq_none_iff.2 fun x hx => ?_).symm
    exact List.findSome?_eq_none_iff.1 hfirst x (h.mem_iff.2 hx)
  | some a =>
    obtain ⟨x, hx, hxa⟩ := List.exists_of_findSome?_eq_some hfirst
    have hsome : (l₂.findSome? f).isSome := by
      rw [List.findSome?_isSome_iff]
      exact ⟨x, h.mem_iff.1 hx, by simp [hxa]⟩
    obtain ⟨b, hsecond⟩ := Option.isSome_iff_exists.1 hsome
    obtain ⟨y, hy, hyb⟩ := List.exists_of_findSome?_eq_some hsecond
    rw [hsecond, hagree x hx y (h.mem_iff.2 hy) a b hxa hyb]

/-- The direction of a parameter does not depend on the order of definitions that agree on it. -/
theorem AgreesOnFlow.statedFlow_eq {s t : StorySymbol} (h : s.AgreesOnFlow)
    (hperm : s.definitions.Perm t.definitions) (index : Nat) (preferred : Option SymbolDefinition) :
    s.statedFlow index preferred = t.statedFlow index preferred := by
  unfold statedFlow
  rw [findSome?_eq_of_perm hperm (h index)]

/-- The directions of a symbol that has fallen back are those that are stated. -/
theorem flows_of_fallBack {s : StorySymbol} (h : s.fallBack = s) :
    s.flows = (List.range s.parameters.length).map fun index => s.statedFlow index none := by
  refine List.ext_getElem? fun index => ?_
  rw [flows, List.getElem?_map, List.getElem?_map]
  have hparameter := getElem?_parameters_fallBack s index
  rw [h] at hparameter
  by_cases hindex : index < s.parameters.length
  · rw [List.getElem?_range hindex, hparameter, List.getElem?_eq_getElem hindex]
    rfl
  · rw [List.getElem?_eq_none (Nat.le_of_not_lt hindex), List.getElem?_eq_none (by simpa using hindex)]
    rfl

/-- Those of one that has adopted a definition are stated by it, or else by the others. -/
theorem flows_adopt (s : StorySymbol) (index : Nat) (d : SymbolDefinition)
    (types : List (ValueType × Option ParameterRef)) :
    (s.adopt index d types).flows
      = (List.range (types.zip (d.parameters.map (·.name))).length).map fun position =>
          s.statedFlow position (some d) := by
  unfold flows adopt
  dsimp only
  rw [List.map_map]
  refine List.ext_getElem? fun position => ?_
  rw [List.getElem?_map, List.getElem?_map, List.getElem?_zipIdx]
  by_cases hposition : position < (types.zip (d.parameters.map (·.name))).length
  · rw [List.getElem?_range hposition, List.getElem?_eq_getElem hposition]
    simp
  · have hlength := Nat.le_of_not_lt hposition
    rw [List.getElem?_eq_none hlength, List.getElem?_eq_none (by rwa [List.length_range])]
    rfl

/-- **Alike symbols that show one judgement have the same directions**, if their definitions agree on
them. -/
theorem Alike.flows_eq {weights : Weights} {s t : StorySymbol} {j : Judgement}
    (h : s.Alike weights t) (hsystem : s.isSystem = false) (hj : ∀ types, j ≠ .declared types)
    (hs : s.Shows j) (ht : t.Shows j) (hagree : s.AgreesOnFlow) : s.flows = t.flows := by
  obtain ⟨hgoals, -, hlength⟩ := h.inferred hsystem
  have hflow := hagree.statedFlow_eq hgoals.perm
  have hfallen (hs : s.fallBack = s) (ht : t.fallBack = t) : s.flows = t.flows := by
    rw [flows_of_fallBack hs, flows_of_fallBack ht, hlength]
    simp only [hflow]
  cases j with
  | declared types => exact absurd rfl (hj types)
  | adopts d types =>
    obtain ⟨m, -, hs⟩ := hs
    obtain ⟨n, -, ht⟩ := ht
    rw [← hs, ← ht, flows_adopt, flows_adopt]
    simp only [hflow]
  | pending => exact hfallen hs.2 ht.2
  | dead => exact hfallen hs.2 ht.2

end StorySymbol

/-! ## Alike tables

What settles in one of two alike tables settles in the other, as a settling only speaks of what
alike symbols have in common. -/

namespace SymbolTable

variable {a b header : SymbolTable} {types : TypeRegistry} {trees : Trees} {weights : Weights}
  {key : SymbolKey} {s t : StorySymbol}

/-- Two tables that have the same symbols up to order, and alike ones. -/
structure Alike (weights : Weights) (a b : SymbolTable) : Prop where
  isSome_eq : ∀ key, (a.get? key).isSome = (b.get? key).isSome
  symbol : ∀ {key s t}, a.get? key = some s → b.get? key = some t → s.Alike weights t

/-- **Tables that hold the same goals are alike**, if no two goals share a weight. -/
theorem Holds.alike (ha : a.Holds header types trees) (hb : b.Holds header types trees)
    (ha_tidy : a.IsTidy) (hb_tidy : b.IsTidy) (hheader : header.IsDeclared)
    (hweights : ∀ m n, (trees m).isSome → (trees n).isSome →
      weights.of m = weights.of n → m = n) : a.Alike weights b where
  isSome_eq key := by
    rw [Bool.eq_iff_iff, ha.isSome_iff ha_tidy, hb.isSome_iff hb_tidy]
  symbol {key s t} hs ht := by
    have hkey : s.key = t.key := (key_of_get? hs).trans (key_of_get? ht).symm
    -- Either the header declares the symbol, or both tables gather it from the same goals.
    cases hget : header.get? key with
    | some u =>
      obtain ⟨s', hs', hs_system, hs_kind, hs_verdict⟩ := ha.exists_declared hheader hget
      obtain ⟨t', ht', ht_system, ht_kind, ht_verdict⟩ := hb.exists_declared hheader hget
      rw [hs, Option.some.injEq] at hs'
      rw [ht, Option.some.injEq] at ht'
      subst hs' ht'
      exact ⟨hkey, hs_system.trans ht_system.symm, hs_kind.trans ht_kind.symm,
        fun _ => hs_verdict.trans ht_verdict.symm, fun hnot => absurd hs_system (by simp [hnot])⟩
    | none =>
      have hs_gathers := ha.gathers hget hs
      have ht_gathers := hb.gathers hget ht
      have hagree : s.AgreeByGoal t :=
        fun name => (hs_gathers.definitions name).trans (ht_gathers.definitions name).symm
      have hpresent {d : SymbolDefinition} (hd : d ∈ s.definitions) : (trees d.goal).isSome := by
        obtain ⟨tree, htree, -⟩ := hs_gathers.exists_site hd
        rw [htree]
        rfl
      refine ⟨hkey, hs_gathers.inferred.trans ht_gathers.inferred.symm, ?_,
        fun hdeclared => absurd hdeclared (by simp [hs_gathers.inferred]), fun _ => ⟨hagree, ?_, ?_⟩⟩
      · rw [hs_gathers.kind, ht_gathers.kind, StorySymbol.statedKind_eq hagree.perm]
      · exact hagree.ranked_eq hkey fun d hd e he => hweights _ _ (hpresent hd) (hpresent he)
      · rw [hs_gathers.length, ht_gathers.length]

/-- Being alike goes both ways. -/
theorem Alike.symm (h : a.Alike weights b) : b.Alike weights a where
  isSome_eq key := (h.isSome_eq key).symm
  symbol hb ha := by
    have halike := h.symbol ha hb
    refine ⟨halike.key.symm, halike.isSystem.symm, halike.kind.symm,
      fun hsystem => (halike.declared (halike.isSystem.trans hsystem)).symm, fun hsystem => ?_⟩
    obtain ⟨hagree, hranked, hlength⟩ := halike.inferred (halike.isSystem.trans hsystem)
    exact ⟨fun name => (hagree name).symm, hranked.symm, hlength.symm⟩

/-- Alike tables have symbols under the same keys. -/
theorem Alike.get?_eq_none (h : a.Alike weights b) (hb : b.get? key = none) :
    a.get? key = none := by
  rw [← Option.not_isSome_iff_eq_none, h.isSome_eq, hb]
  simp

/-- The symbols of alike tables are alike. -/
theorem Alike.exists_alike (h : a.Alike weights b) (hb : b.get? key = some t) :
    ∃ s, a.get? key = some s ∧ s.Alike weights t := by
  have hsome : (a.get? key).isSome := by
    rw [h.isSome_eq, hb]
    rfl
  obtain ⟨s, hs⟩ := Option.isSome_iff_exists.1 hsome
  exact ⟨s, hs, h.symbol hs hb⟩

/-- Whether a symbol is a database is told by its key. -/
theorem isDatabase_eq_of_key (h : s.key = t.key) : s.isDatabase = t.isDatabase := by
  unfold StorySymbol.isDatabase StorySymbol.name
  rw [h]

/-- Symbols of alike tables need the same others. -/
theorem Alike.needs (h : a.Alike weights b) {view : View} {other : SymbolKey}
    (hneeds : b.Needs weights view key other) : a.Needs weights view key other := by
  obtain ⟨t, ht, hinferred, d, hd, hother⟩ := hneeds
  obtain ⟨s, hs, halike⟩ := h.exists_alike ht
  have hs_inferred := halike.isSystem.trans hinferred
  refine ⟨s, hs, hs_inferred, d, ?_, hother⟩
  rw [(halike.inferred hs_inferred).2.1]
  exact hd

/-- **Alike tables have the same settlings.** -/
def Alike.settling (h : a.Alike weights b) (S : a.Settling weights) : b.Settling weights where
  covers := S.covers
  view := S.view
  rank := S.rank
  absent hcovers hnone := S.absent hcovers (h.get?_eq_none hnone)
  declared hcovers ht hdeclared := by
    obtain ⟨s, hs, halike⟩ := h.exists_alike ht
    have hs_declared := halike.isSystem.trans hdeclared
    rw [S.declared hcovers hs hs_declared]
    have hverdict := halike.declared hs_declared
    exact congrArg (fun u : StorySymbol => Judgement.declared (u.parameters.map (·.type))) hverdict
  judged hcovers ht hinferred := by
    obtain ⟨s, hs, halike⟩ := h.exists_alike ht
    have hs_inferred := halike.isSystem.trans hinferred
    rw [S.judged hcovers hs hs_inferred, (halike.inferred hs_inferred).2.1,
      isDatabase_eq_of_key halike.key]
  grounded hcovers ht hinferred hpending := by
    obtain ⟨s, hs, halike⟩ := h.exists_alike ht
    have hs_inferred := halike.isSystem.trans hinferred
    rw [← (halike.inferred hs_inferred).2.1, ← isDatabase_eq_of_key halike.key]
    exact S.grounded hcovers hs hs_inferred hpending
  -- What one symbol needs of another is the same in both tables, and with it each way of needs.
  closed hcovers hneeds := S.closed hcovers (h.needs hneeds)
  acyclic hcovers htyped hne hneeds hback :=
    S.acyclic hcovers htyped hne (hneeds.lift id fun _ _ => h.needs)
      (hback.lift id fun _ _ => h.needs)

/-- What is settled in one is settled in the other. -/
theorem Alike.settles (h : a.Alike weights b) (hsettles : a.Settles weights key) :
    b.Settles weights key := by
  obtain ⟨S, hcovers⟩ := hsettles
  exact ⟨h.settling S, hcovers⟩

end SymbolTable

end StoryCheck
