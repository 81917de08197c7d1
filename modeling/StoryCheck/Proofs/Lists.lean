import Mathlib.Data.List.Flatten
import Mathlib.Data.List.Forall2
import Mathlib.Order.Lattice

/-!
# Lists side by side

What is read of the things in a list stands beside them, one by one. A stable sort leaves alone
what is in order already.

* **`length_flatMap_eq_iff`** — pieces of the same length.
* **`mapM_eq_ok_iff`**, **`mapM_eq_error_iff`** — reading all things in a list.
* **`filter_mergeSort_of_pairwise`** — sorting keeps the order of those that stand in order.
* **`mergeSort_key_eq_iff`** — what a stable sort by a key remembers of the order before.
* **`flatMap_eq_of_perm`** — pieces that never meet may be taken in any order.
-/

namespace StoryCheck

/-- Beside each thing of a list stands one of the other. -/
theorem exists_of_forall₂ {α β : Type} {R : α → β → Prop} {as : List α} {bs : List β}
    (h : List.Forall₂ R as bs) {a : α} (ha : a ∈ as) : ∃ b ∈ bs, R a b := by
  induction h with
  | nil => cases ha
  | cons hfirst _ ih =>
    rcases List.mem_cons.1 ha with rfl | ha
    · exact ⟨_, List.mem_cons_self, hfirst⟩
    · obtain ⟨b, hb, hrel⟩ := ih ha
      exact ⟨b, List.mem_cons_of_mem _ hb, hrel⟩

/-- If one of two lists side by side is cut in two, the other can be, too. -/
theorem exists_of_forall₂_append {α β : Type} {R : α → β → Prop} {front back : List α}
    {others : List β} (h : List.Forall₂ R (front ++ back) others) :
    ∃ front' back', List.Forall₂ R front front' ∧ List.Forall₂ R back back'
      ∧ others = front' ++ back' := by
  induction front generalizing others with
  | nil => exact ⟨[], others, .nil, h, rfl⟩
  | cons a front ih =>
    cases h with
    | cons ha more =>
      obtain ⟨front', back', hfront, hback, rfl⟩ := ih more
      exact ⟨_ :: front', back', .cons ha hfront, hback, rfl⟩

/-- Where the pieces of one list are parts of those of another, the lists are as long only if the pieces
are the same. -/
theorem length_flatMap_eq_iff {α β : Type} {l : List α} {f g : α → List β}
    (h : ∀ a ∈ l, (g a).Sublist (f a)) :
    (l.flatMap f).length = (l.flatMap g).length ↔ ∀ a ∈ l, f a = g a := by
  induction l with
  | nil => simp
  | cons a l ih =>
    have ha := h a List.mem_cons_self
    have hl := fun b hb => h b (List.mem_cons_of_mem a hb)
    have hall := (List.Sublist.flatMap_right l hl).length_le
    rw [List.flatMap_cons, List.flatMap_cons, List.length_append, List.length_append,
      List.forall_mem_cons, ← ih hl]
    have hle := ha.length_le
    constructor
    · intro hsum
      exact ⟨(ha.eq_of_length (by omega)).symm, by omega⟩
    · rintro ⟨heq, hrest⟩
      rw [heq, hrest]

/-- What is read of several things is read of each. -/
theorem mapM_eq_ok_iff {α β ε : Type} {read : α → Except ε β} {items : List α} {found : List β} :
    items.mapM read = .ok found ↔ List.Forall₂ (fun item result => read item = .ok result) items found := by
  induction items generalizing found with
  | nil =>
    rw [List.forall₂_nil_left_iff]
    exact ⟨fun h => (Except.ok.inj h).symm, fun h => h ▸ rfl⟩
  | cons item rest ih =>
    rw [List.mapM_cons, List.forall₂_cons_left_iff]
    cases hfirst : read item with
    | error reason => exact iff_of_false nofun fun ⟨_, _, h, _⟩ => nomatch h
    | ok result =>
      cases hrest : rest.mapM read with
      | error reason =>
        refine iff_of_false nofun fun ⟨_, more, _, hmore, _⟩ => ?_
        rw [← ih, hrest] at hmore
        cases hmore
      | ok more =>
        constructor
        · intro h
          exact ⟨result, more, rfl, ih.1 hrest, (Except.ok.inj h).symm⟩
        · rintro ⟨_, others, hresult, hothers, rfl⟩
          rw [← ih, hrest] at hothers
          cases hresult
          cases hothers
          rfl

/-- Reading several things fails at the first one that cannot be read. -/
theorem mapM_eq_error_iff {α β ε : Type} {read : α → Except ε β} {items : List α} {error : ε} :
    items.mapM read = .error error ↔ ∃ front a back, items = front ++ a :: back
      ∧ (∀ b ∈ front, (read b).isOk = true) ∧ read a = .error error := by
  -- The error is the first item's, or else it is that of the rest with the first one in front.
  induction items with
  | nil => simp [pure, Except.pure]
  | cons first items ih =>
    rw [List.mapM_cons]
    cases hfirst : read first with
    | error other =>
      constructor
      · intro h
        obtain rfl := Except.error.inj h
        exact ⟨[], first, items, rfl, nofun, hfirst⟩
      · rintro ⟨front, a, back, hsplit, hfront, ha⟩
        cases front with
        | nil =>
          obtain ⟨rfl, -⟩ := List.cons.inj hsplit
          obtain rfl := Except.error.inj (hfirst.symm.trans ha)
          rfl
        | cons b front =>
          obtain ⟨rfl, -⟩ := List.cons.inj hsplit
          have hb := hfront first List.mem_cons_self
          rw [hfirst] at hb
          cases hb
    | ok value =>
      have htail : (do
            let value ← (Except.ok value : Except ε β)
            let values ← items.mapM read
            return value :: values) = .error error
          ↔ items.mapM read = .error error := by
        dsimp only [bind, Except.bind]
        cases items.mapM read with
        | error other => simp
        | ok values => simp [pure, Except.pure]
      rw [htail, ih]
      constructor
      · rintro ⟨front, a, back, rfl, hfront, ha⟩
        refine ⟨first :: front, a, back, rfl, ?_, ha⟩
        rintro b (_ | ⟨_, hb⟩)
        · rw [hfirst]
          rfl
        · exact hfront b hb
      · rintro ⟨front, a, back, hsplit, hfront, ha⟩
        cases front with
        | nil =>
          obtain ⟨rfl, -⟩ := List.cons.inj hsplit
          rw [hfirst] at ha
          cases ha
        | cons b front =>
          obtain ⟨rfl, rfl⟩ := List.cons.inj hsplit
          exact ⟨front, a, back, rfl, fun c hc => hfront c (List.mem_cons_of_mem _ hc), ha⟩

/-- Sorting keeps the order of those that pass a test if they stand in order. -/
theorem filter_mergeSort_of_pairwise {α : Type} {le : α → α → Bool}
    (trans : ∀ a b c, le a b → le b c → le a c) (total : ∀ a b, le a b || le b a) {l : List α}
    {test : α → Bool} (hordered : (l.filter test).Pairwise (le · ·)) :
    (l.mergeSort le).filter test = l.filter test := by
  have hsub := (List.sublist_mergeSort trans total hordered List.filter_sublist).filter test
  rw [List.filter_filter] at hsub
  simp only [Bool.and_self] at hsub
  exact (hsub.eq_of_length ((List.mergeSort_perm l le).filter test).length_eq.symm).symm

/-! ## Sorting by a key

A sort by a key is stable, so it keeps each class of the key in its order, and two lists come to the
same if they agree on all classes. -/

section Key

variable {α κ : Type} [LinearOrder κ] {key : α → κ} {a b : α} {l m : List α}

/-- The order by a key is transitive. -/
theorem key_le_trans (a b c : α) (hab : decide (key a ≤ key b)) (hbc : decide (key b ≤ key c)) :
    decide (key a ≤ key c) :=
  decide_eq_true (le_trans (of_decide_eq_true hab) (of_decide_eq_true hbc))

/-- The order by a key is total. -/
theorem key_le_total (a b : α) : decide (key a ≤ key b) || decide (key b ≤ key a) := by
  simpa using le_total (key a) (key b)

/-- A sorted list has its keys in order. -/
theorem pairwise_mergeSort_key (key : α → κ) (l : List α) :
    (l.mergeSort fun a b => decide (key a ≤ key b)).Pairwise fun a b => key a ≤ key b :=
  (List.pairwise_mergeSort key_le_trans key_le_total l).imp of_decide_eq_true

/-- A sort by a key keeps the order of the things of one key. -/
theorem filter_mergeSort_key (k : κ) :
    (l.mergeSort fun a b => decide (key a ≤ key b)).filter (key · = k) = l.filter (key · = k) := by
  refine filter_mergeSort_of_pairwise key_le_trans key_le_total ?_
  refine List.pairwise_of_forall_mem_list fun a ha b hb => ?_
  have ha : key a = k := of_decide_eq_true (List.mem_filter.1 ha).2
  have hb : key b = k := of_decide_eq_true (List.mem_filter.1 hb).2
  exact decide_eq_true (ha.trans hb.symm).le

/-- Lists that agree on all classes have the same members. -/
theorem mem_of_filter_key_eq (h : ∀ k, l.filter (key · = k) = m.filter (key · = k)) (ha : a ∈ l) :
    a ∈ m := by
  have hfilter : a ∈ l.filter (key · = key a) := List.mem_filter.2 ⟨ha, decide_eq_true rfl⟩
  rw [h] at hfilter
  exact (List.mem_filter.1 hfilter).1

/-- The first key of a sorted list is the least in both. -/
theorem key_le_of_filter_key_eq (hm : (b :: m).Pairwise fun a b => key a ≤ key b)
    (h : ∀ k, l.filter (key · = k) = (b :: m).filter (key · = k)) (ha : a ∈ l) : key b ≤ key a := by
  rcases List.mem_cons.1 (mem_of_filter_key_eq h ha) with rfl | ha
  · exact le_rfl
  · exact List.rel_of_pairwise_cons hm ha

/-- Lists that are sorted by a key are the same if they have the same things of each key in the same
order. -/
theorem eq_of_filter_key_eq (hl : l.Pairwise fun a b => key a ≤ key b)
    (hm : m.Pairwise fun a b => key a ≤ key b)
    (h : ∀ k, l.filter (key · = k) = m.filter (key · = k)) : l = m := by
  induction l generalizing m with
  | nil =>
    refine (List.eq_nil_iff_forall_not_mem.2 fun b hb => ?_).symm
    exact List.not_mem_nil (mem_of_filter_key_eq (fun k => (h k).symm) hb)
  | cons a l ih =>
    cases m with
    | nil => exact absurd (mem_of_filter_key_eq h List.mem_cons_self) List.not_mem_nil
    | cons b m =>
      -- Each of the first ones stands in the other list as well, so neither key is the smaller one.
      have hab : key a ≤ key b :=
        key_le_of_filter_key_eq hl (fun k => (h k).symm) List.mem_cons_self
      have hba : key b ≤ key a := key_le_of_filter_key_eq hm h List.mem_cons_self
      have hkey : key b = key a := le_antisymm hba hab
      have hfirst := h (key a)
      simp only [List.filter_cons, hkey, decide_true, if_true] at hfirst
      obtain rfl := (List.cons.inj hfirst).1
      refine congrArg (a :: ·) (ih hl.of_cons hm.of_cons fun k => ?_)
      have hk := h k
      rw [List.filter_cons, List.filter_cons] at hk
      split at hk
      · exact (List.cons.inj hk).2
      · exact hk

/-- A stable sort by a key forgets all about the order before, except for the order of the things of
one key. -/
theorem mergeSort_key_eq_iff :
    (l.mergeSort fun a b => decide (key a ≤ key b)) = m.mergeSort (fun a b => decide (key a ≤ key b))
      ↔ ∀ k, l.filter (key · = k) = m.filter (key · = k) := by
  constructor
  · intro h k
    rw [← filter_mergeSort_key, h, filter_mergeSort_key]
  · intro h
    refine eq_of_filter_key_eq (pairwise_mergeSort_key key l) (pairwise_mergeSort_key key m) ?_
    intro k
    rw [filter_mergeSort_key, filter_mergeSort_key, h]

end Key

/-- Where no two things have a piece each, the pieces may be taken in any order. -/
theorem flatMap_eq_of_perm {α β : Type} {l m : List α} {f : α → List β}
    (hf : ∀ a b, a ≠ b → f a = [] ∨ f b = []) (h : l.Perm m) : l.flatMap f = m.flatMap f := by
  induction h with
  | nil => rfl
  | cons a _ ih => rw [List.flatMap_cons, List.flatMap_cons, ih]
  | swap a b l =>
    simp only [List.flatMap_cons]
    rcases eq_or_ne a b with rfl | hne
    · rfl
    · rcases hf a b hne with ha | hb
      · simp [ha]
      · simp [hb]
  | trans _ _ ih₁ ih₂ => exact ih₁.trans ih₂

end StoryCheck
