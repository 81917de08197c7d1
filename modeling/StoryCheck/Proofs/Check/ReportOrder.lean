import Mathlib.Data.Prod.Lex
import Mathlib.Data.String.Basic
import StoryCheck.Proofs.Check.Codes
import StoryCheck.Proofs.Lists

/-!
# The order of reports

Diagnostics are sorted by their place, severity, kind and message. The file and the notes do not count,
so the order before the sort shows where two diagnostics of a list differ in nothing but these. No two
checks find the same kind of problem, and so it never shows which of them ran first.

* **`Diagnostic.sortKey`**, **`Diagnostic.IsLike`** — what diagnostics are sorted by, and having it in
  common.
* **`Diagnostic.sort_eq_sort_iff`** — what the sort remembers of the order before.
* **`Diagnostic.forall_sort_eq_iff`** — when it remembers nothing.
* **`CheckContext.run_eq_of_perm`** — the checks of a goal may run in any order.
* **`Diagnostic.sort_forgets_order_iff`** — all of this together.
-/

namespace StoryCheck

/-- Severities of the same rank are the same. -/
theorem Severity.rank_injective {s t : Severity} (h : s.rank = t.rank) : s = t := by
  cases s <;> cases t <;> first | rfl | cases h

namespace Diagnostic

variable {a b : Diagnostic} {ds es : List Diagnostic}

/-! ## What diagnostics are sorted by

The comparison asks five questions one after the other, which is the same as comparing keys of five
parts. File and notes are no part of the key. -/

/-- Start, end, severity, code number and message; the first of them that differs decides. -/
abbrev SortKey : Type := ℕ ×ₗ ℕ ×ₗ ℕ ×ₗ ℕ ×ₗ String

/-- What a diagnostic is sorted by. -/
def sortKey (d : Diagnostic) : SortKey :=
  toLex (d.span.start, toLex (d.span.stop, toLex (d.severity.rank, toLex (d.code.number, d.message))))

/-- Two diagnostics say the same about the same place. They may be about different files or have
different notes. -/
structure IsLike (a b : Diagnostic) : Prop where
  span : a.span = b.span
  severity : a.severity = b.severity
  code : a.code = b.code
  message : a.message = b.message

/-- Diagnostics of a list that say the same about the same place agree in file and notes as well. -/
def AreToldApart (ds : List Diagnostic) : Prop :=
  ∀ a ∈ ds, ∀ b ∈ ds, a.IsLike b → a.file = b.file ∧ a.notes = b.notes

/-- Diagnostics that are alike differ in nothing but file and notes. -/
theorem IsLike.eq (h : a.IsLike b) (hfile : a.file = b.file) (hnotes : a.notes = b.notes) : a = b := by
  obtain ⟨severity, code, message, file, span, notes⟩ := a
  obtain ⟨rfl, rfl, rfl, rfl⟩ := h
  cases hfile
  cases hnotes
  rfl

/-- Being alike goes both ways. -/
theorem IsLike.symm (h : a.IsLike b) : b.IsLike a :=
  ⟨h.span.symm, h.severity.symm, h.code.symm, h.message.symm⟩

/-- To be alike is to have the same key. -/
theorem sortKey_eq_iff : a.sortKey = b.sortKey ↔ a.IsLike b := by
  constructor
  · intro h
    simp only [sortKey, EmbeddingLike.apply_eq_iff_eq, Prod.mk.injEq] at h
    obtain ⟨hstart, hstop, hseverity, hcode, hmessage⟩ := h
    exact ⟨congrArg₂ Span.mk hstart hstop, Severity.rank_injective hseverity,
      Code.number_injective hcode, hmessage⟩
  · rintro ⟨hspan, hseverity, hcode, hmessage⟩
    simp only [sortKey, hspan, hseverity, hcode, hmessage]

/-- The order of diagnostics is that of their keys. -/
theorem isLE_order_iff : (order a b).isLE ↔ a.sortKey ≤ b.sortKey := by
  have hmessage : (compare a.message b.message).isLE ↔ a.message ≤ b.message :=
    Std.LawfulBCmp.isLE_iff_le
  simp only [order, sortKey, Ordering.then_assoc, Ordering.isLE_then_iff_or, Nat.compare_eq_lt,
    Nat.compare_eq_eq, hmessage, Prod.Lex.toLex_le_toLex]

/-- Among diagnostics that are told apart each key is that of one. -/
theorem AreToldApart.eq_of_sortKey (h : AreToldApart ds) (ha : a ∈ ds) (hb : b ∈ ds)
    (hkey : a.sortKey = b.sortKey) : a = b := by
  have hlike := sortKey_eq_iff.1 hkey
  obtain ⟨hfile, hnotes⟩ := h a ha b hb hlike
  exact hlike.eq hfile hnotes

/-! ## Sorting

The sort is stable: diagnostics with the same key stay in the order in which they came. What is
remembered of that order is therefore what the classes of the key remember. -/

/-- Sorting is sorting by the key. -/
theorem sort_eq_mergeSort : sort ds = ds.mergeSort fun a b => decide (a.sortKey ≤ b.sortKey) := by
  have horder (a b : Diagnostic) : (order a b).isLE = decide (a.sortKey ≤ b.sortKey) :=
    Bool.eq_iff_iff.2 (isLE_order_iff.trans decide_eq_true_iff.symm)
  simp only [sort, horder]

/-- Sorting loses nothing and adds nothing. -/
theorem sort_perm (ds : List Diagnostic) : (sort ds).Perm ds := List.mergeSort_perm _ _

/-- Sorted diagnostics have their keys in order. -/
theorem pairwise_sort (ds : List Diagnostic) :
    (sort ds).Pairwise fun a b => a.sortKey ≤ b.sortKey := by
  rw [sort_eq_mergeSort]
  exact pairwise_mergeSort_key sortKey ds

/-- The order of two lists shows in the sorted lists only where it is the order of diagnostics that say
the same about the same place. -/
theorem sort_eq_sort_iff : sort ds = sort es
    ↔ ∀ k, ds.filter (·.sortKey = k) = es.filter (·.sortKey = k) := by
  rw [sort_eq_mergeSort, sort_eq_mergeSort]
  exact mergeSort_key_eq_iff

/-- Of diagnostics that say the same about the same place, the first one stays first. -/
theorem sort_pair (h : a.IsLike b) : sort [a, b] = [a, b] := by
  rw [sort_eq_mergeSort]
  exact List.mergeSort_of_pairwise (by simp [sortKey_eq_iff.2 h])

/-- Two different diagnostics with the same key show which came first. -/
theorem sort_swap_ne (h : a.IsLike b) (hne : a ≠ b) : sort [b, a] ≠ sort [a, b] := by
  rw [sort_pair h, sort_pair h.symm]
  exact fun hswap => hne (List.cons.inj hswap).1.symm

/-- If all are told apart, none does. -/
theorem AreToldApart.sort_eq (h : AreToldApart ds) (hperm : es.Perm ds) : sort es = sort ds := by
  refine List.Perm.eq_of_pairwise (fun a b ha hb hab hba => ?_) (pairwise_sort es) (pairwise_sort ds)
    ((sort_perm es).trans (hperm.trans (sort_perm ds).symm))
  have ha : a ∈ ds := hperm.mem_iff.1 ((sort_perm es).mem_iff.1 ha)
  have hb : b ∈ ds := (sort_perm ds).mem_iff.1 hb
  exact h.eq_of_sortKey ha hb (le_antisymm hab hba)

/-- A list may be in any order before it is sorted exactly when its diagnostics are told apart. -/
theorem forall_sort_eq_iff : (∀ es, es.Perm ds → sort es = sort ds) ↔ AreToldApart ds := by
  constructor
  · intro h a ha b hb hlike
    -- The list with `a` in front and the one with `b` in front come out alike.
    have hfront := h _ (List.perm_cons_erase ha).symm
    have hback := h _ (List.perm_cons_erase hb).symm
    have hfilter := sort_eq_sort_iff.1 (hfront.trans hback.symm) a.sortKey
    have hkey : b.sortKey = a.sortKey := (sortKey_eq_iff.2 hlike).symm
    simp only [List.filter_cons, hkey, decide_true, if_true] at hfilter
    obtain rfl := (List.cons.inj hfilter).1
    exact ⟨rfl, rfl⟩
  · intro h es hperm
    exact h.sort_eq hperm

end Diagnostic

/-! ## Checks in any order

Two checks may report about the same place only in different kinds, as each kind belongs to one
check. So no two of them report under one key, and what is sorted does not depend on which of them
ran first. -/

namespace CheckContext

open Diagnostic

variable {context : CheckContext} {checks others : List Check}

/-- What a check reports under one sort key. -/
def reportsAt (context : CheckContext) (k : SortKey) (check : Check) : List Diagnostic :=
  ((check.reports context).map (·.inFile context.goal.uri)).filter (·.sortKey = k)

/-- What a check finds at a place is of its kinds. -/
theorem code_of_mem_reportsAt {k : SortKey} {check : Check} {d : Diagnostic}
    (hd : d ∈ context.reportsAt k check) : d.sortKey = k ∧ d.code ∈ check.codes := by
  obtain ⟨hd, hkey⟩ := List.mem_filter.1 hd
  obtain ⟨found, hfound, rfl⟩ := List.mem_map.1 hd
  have hcode : found.code ∈ check.codes := Check.code_mem_codes hfound
  exact ⟨of_decide_eq_true hkey, hcode⟩

/-- No two checks say the same about the same place. -/
theorem reportsAt_eq_nil {k : SortKey} {check other : Check} (h : check ≠ other) :
    context.reportsAt k check = [] ∨ context.reportsAt k other = [] := by
  by_contra hboth
  obtain ⟨hcheck, hother⟩ := not_or.1 hboth
  obtain ⟨d, hd⟩ := List.exists_mem_of_ne_nil _ hcheck
  obtain ⟨e, he⟩ := List.exists_mem_of_ne_nil _ hother
  obtain ⟨hdkey, hdcode⟩ := code_of_mem_reportsAt hd
  obtain ⟨hekey, hecode⟩ := code_of_mem_reportsAt he
  have hlike : d.IsLike e := sortKey_eq_iff.1 (hdkey.trans hekey.symm)
  exact h (Check.eq_of_mem_codes _ hdcode (hlike.code ▸ hecode))

/-- **It does not show which check ran first.** -/
theorem run_eq_of_perm (h : others.Perm checks) : context.run others = context.run checks := by
  refine sort_eq_sort_iff.2 fun k => ?_
  rw [List.map_flatMap, List.map_flatMap, List.filter_flatMap, List.filter_flatMap]
  exact flatMap_eq_of_perm (fun check other hne => reportsAt_eq_nil hne) h

end CheckContext

namespace Diagnostic

/-- **What is reported is sorted by place, severity, kind and message. The order in which it was reported
is forgotten exactly when diagnostics of the same place that say the same agree in file and notes as well;
and the order of the checks of a goal is always forgotten.** -/
theorem sort_forgets_order_iff (ds : List Diagnostic) (context : CheckContext) (checks : List Check) :
    (sort ds).Perm ds
      ∧ (sort ds).Pairwise (fun a b => a.sortKey ≤ b.sortKey)
      ∧ ((∀ es, es.Perm ds → sort es = sort ds) ↔ AreToldApart ds)
      ∧ ∀ others, others.Perm checks → context.run others = context.run checks :=
  ⟨sort_perm ds, pairwise_sort ds, forall_sort_eq_iff, fun _ => CheckContext.run_eq_of_perm⟩

/-- A semicolon is missing at the start of the text at an address. -/
def missingSemicolon (address : String) : Diagnostic :=
  (missingToken "';'" ⟨0, 1⟩).inFile address

/-- **The file does not count**, so the same problem in two files stays in the order of the reports. -/
theorem files_keep_their_order :
    [missingSemicolon "memory:///B", missingSemicolon "memory:///A"].Perm
        [missingSemicolon "memory:///A", missingSemicolon "memory:///B"]
      ∧ sort [missingSemicolon "memory:///B", missingSemicolon "memory:///A"]
        ≠ sort [missingSemicolon "memory:///A", missingSemicolon "memory:///B"] := by
  refine ⟨List.Perm.swap _ _ [], sort_swap_ne ⟨rfl, rfl, rfl, rfl⟩ ?_⟩
  decide

end Diagnostic

end StoryCheck
