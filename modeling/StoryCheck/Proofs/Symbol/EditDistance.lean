import Mathlib.Data.List.Infix
import StoryCheck.Symbol.Suggest

/-!
# Edit distances

How far two names are apart is said by recursion on their first characters, and computed row by row, one
row for every beginning of the first name. Both are the least number of edits that lead from one name to
the other, and as edits can be made from either end, a row follows from the row above.

* **`levenshtein`** — the distance by recursion.
* **`levenshtein_le_iff`** — it is the least number of edits.
* **`levenshtein_concat`** — the recursion on the last characters.
* **`editDistance_eq_levenshtein`** — the rows come to the same distance.
* **`distance_length_le`** — names of very different length are far apart.
-/

namespace StoryCheck

variable {as bs cs ds : List Char} {m n : Nat}

/-- The distance of two names: the first characters are kept or replaced, the first one is deleted, or
one is inserted in front, whichever is best. -/
def levenshtein : List Char → List Char → Nat
  | [], bs => bs.length
  | as, [] => as.length
  | a :: as, b :: bs =>
    min (min (levenshtein as bs + if a = b then 0 else 1) (levenshtein as (b :: bs) + 1))
      (levenshtein (a :: as) bs + 1)
termination_by as bs => as.length + bs.length

/-- All characters are inserted into an empty name. -/
theorem levenshtein_nil_left (bs : List Char) : levenshtein [] bs = bs.length := by
  rw [levenshtein]

/-- All characters are deleted to get to an empty name. -/
theorem levenshtein_nil_right (as : List Char) : levenshtein as [] = as.length := by
  cases as <;> simp [levenshtein]

/-- The first characters are exchanged, or one of them is deleted or inserted. -/
theorem levenshtein_cons (a b : Char) (as bs : List Char) : levenshtein (a :: as) (b :: bs)
    = min (min (levenshtein as bs + if a = b then 0 else 1) (levenshtein as (b :: bs) + 1))
        (levenshtein (a :: as) bs + 1) := by
  rw [levenshtein]

/-! ## Edits

Edits are a relation: two names, and how many edits it takes to lead from one to the other in some
way. It is symmetric in front and behind, which the recursion is not, so the recursion from behind
is got by going over it. -/

/-- So many insertions, deletions and replacements of a character lead from one name to the other. -/
inductive Edits : List Char → List Char → Nat → Prop
  | nil : Edits [] [] 0
  | keep (c : Char) {as bs : List Char} {n : Nat} (rest : Edits as bs n) : Edits (c :: as) (c :: bs) n
  | replace (a b : Char) {as bs : List Char} {n : Nat} (rest : Edits as bs n) :
      Edits (a :: as) (b :: bs) (n + 1)
  | delete (a : Char) {as bs : List Char} {n : Nat} (rest : Edits as bs n) : Edits (a :: as) bs (n + 1)
  | insert (b : Char) {as bs : List Char} {n : Nat} (rest : Edits as bs n) : Edits as (b :: bs) (n + 1)

namespace Edits

/-- Inserting one character after the other. -/
theorem insertAll (bs : List Char) : Edits [] bs bs.length := by
  induction bs with
  | nil => exact .nil
  | cons b bs ih => exact .insert b ih

/-- Deleting one character after the other. -/
theorem deleteAll (as : List Char) : Edits as [] as.length := by
  induction as with
  | nil => exact .nil
  | cons a as ih => exact .delete a ih

/-- Edits in front and edits behind add up. -/
theorem append (h : Edits as bs m) (hmore : Edits cs ds n) : Edits (as ++ cs) (bs ++ ds) (m + n) := by
  -- Behind the edits in front come the others.
  induction h with
  | nil => simpa using hmore
  | keep c _ ih => exact .keep c ih
  | replace a b _ ih => simpa [Nat.add_right_comm] using ih.replace a b
  | delete a _ ih => simpa [Nat.add_right_comm] using ih.delete a
  | insert b _ ih => simpa [Nat.add_right_comm] using ih.insert b

/-- The same edits lead from the one name read backwards to the other. -/
theorem reverse (h : Edits as bs n) : Edits as.reverse bs.reverse n := by
  induction h with
  | nil => exact .nil
  | keep c _ ih => simpa using ih.append (.keep c .nil)
  | replace a b _ ih => simpa using ih.append (.replace a b .nil)
  | delete a _ ih => simpa using ih.append (.delete a .nil)
  | insert b _ ih => simpa using ih.append (.insert b .nil)

/-- An edit changes the length by one at most. -/
theorem distance_length_le (h : Edits as bs n) : distance as.length bs.length ≤ n := by
  induction h <;> simp only [distance, List.length_nil, List.length_cons] at * <;> omega

/-- The recursion finds a way that takes no more edits than any given one. -/
theorem levenshtein_le (h : Edits as bs n) : levenshtein as bs ≤ n := by
  -- Each edit is one of the three ways of the recursion.
  induction h with
  | nil => simp [levenshtein_nil_left]
  | keep c _ ih =>
    rw [levenshtein_cons, if_pos rfl]
    omega
  | replace a b _ ih =>
    rw [levenshtein_cons]
    split <;> omega
  | @delete a as bs n _ ih =>
    cases bs with
    | nil =>
      rw [levenshtein_nil_right] at ih ⊢
      exact Nat.succ_le_succ ih
    | cons b bs =>
      rw [levenshtein_cons]
      omega
  | @insert b as bs n _ ih =>
    cases as with
    | nil =>
      rw [levenshtein_nil_left] at ih ⊢
      exact Nat.succ_le_succ ih
    | cons a as =>
      rw [levenshtein_cons]
      omega

end Edits

/-- The choices of the recursion are edits. -/
theorem edits_levenshtein (as bs : List Char) : Edits as bs (levenshtein as bs) := by
  induction as, bs using levenshtein.induct with
  | case1 bs =>
    rw [levenshtein_nil_left]
    exact .insertAll bs
  | case2 as _ =>
    rw [levenshtein_nil_right]
    exact .deleteAll as
  | case3 a as b bs hboth hdelete hinsert =>
    have hsame : Edits (a :: as) (b :: bs) (levenshtein as bs + if a = b then 0 else 1) := by
      split
      case isTrue heq => exact heq ▸ .keep a hboth
      case isFalse => exact .replace a b hboth
    have hchoice := levenshtein_cons a b as bs
    generalize levenshtein as bs + (if a = b then 0 else 1) = both at hsame hchoice
    obtain heq | heq | heq : levenshtein (a :: as) (b :: bs) = both
        ∨ levenshtein (a :: as) (b :: bs) = levenshtein as (b :: bs) + 1
        ∨ levenshtein (a :: as) (b :: bs) = levenshtein (a :: as) bs + 1 := by omega
    · exact heq ▸ hsame
    · exact heq ▸ .delete a hdelete
    · exact heq ▸ .insert b hinsert

/-- **The distance is the least number of edits.** -/
theorem levenshtein_le_iff : levenshtein as bs ≤ n ↔ ∃ m ≤ n, Edits as bs m := by
  constructor
  · intro h
    exact ⟨_, h, edits_levenshtein as bs⟩
  · rintro ⟨m, hm, hedits⟩
    exact hedits.levenshtein_le.trans hm

/-- Every difference in length takes an edit. -/
theorem distance_length_le (as bs : List Char) :
    distance as.length bs.length ≤ levenshtein as bs :=
  (edits_levenshtein as bs).distance_length_le

/-- Names that are reversed are no further apart. -/
theorem levenshtein_reverse_le (as bs : List Char) :
    levenshtein as.reverse bs.reverse ≤ levenshtein as bs :=
  (edits_levenshtein as bs).reverse.levenshtein_le

/-- Names that are reversed are as far apart. -/
theorem levenshtein_reverse (as bs : List Char) :
    levenshtein as.reverse bs.reverse = levenshtein as bs := by
  refine (levenshtein_reverse_le as bs).antisymm ?_
  simpa using levenshtein_reverse_le as.reverse bs.reverse

/-- The recursion may as well go by the last characters. -/
theorem levenshtein_concat (as bs : List Char) (a b : Char) : levenshtein (as ++ [a]) (bs ++ [b])
    = min (min (levenshtein as bs + if a = b then 0 else 1) (levenshtein as (bs ++ [b]) + 1))
        (levenshtein (as ++ [a]) bs + 1) := by
  rw [← levenshtein_reverse (as ++ [a]), ← levenshtein_reverse as (bs ++ [b]),
    ← levenshtein_reverse (as ++ [a]) bs, ← levenshtein_reverse as bs]
  simp only [List.reverse_append, List.reverse_singleton, List.singleton_append]
  exact levenshtein_cons a b as.reverse bs.reverse

/-! ## Rows

A row holds the distances of one beginning of the first name to all beginnings of the second. It is
filled from the left, each entry from the one to the left of it and two above. -/

namespace editDistance

/-- The distances of a name to every beginning of another one. -/
def rowOf (as bs : List Char) : List Nat := bs.inits.map (levenshtein as)

/-- The first beginning is empty. -/
theorem inits_eq_cons (bs : List Char) : bs.inits = [] :: bs.inits.tail := by
  cases bs <;> simp

/-- What is left of a row is filled from the row above it, if the entry before it is right. -/
theorem fillRow_eq (a : Char) (as front bs : List Char) :
    fillRow a (levenshtein (as ++ [a]) front) bs (bs.inits.map fun rest => levenshtein as (front ++ rest))
      = bs.inits.tail.map fun rest => levenshtein (as ++ [a]) (front ++ rest) := by
  induction bs generalizing front with
  | nil => simp [fillRow]
  | cons b bs ih =>
    -- The next entry is that of `front` with one character more.
    have hrest := ih (front ++ [b])
    simp only [List.append_assoc, List.singleton_append] at hrest
    simp only [List.inits_cons, List.map_cons, List.map_map, List.tail_cons, Function.comp_def,
      List.append_nil]
    rw [inits_eq_cons bs] at hrest ⊢
    simp only [List.map_cons, List.tail_cons] at hrest ⊢
    rw [fillRow, ← levenshtein_concat, hrest]

/-- A row follows from the row above it. -/
theorem nextRow_rowOf (a : Char) (as bs : List Char) :
    nextRow bs (rowOf as bs) a = rowOf (as ++ [a]) bs := by
  have hfirst : (rowOf as bs).headD 0 + 1 = levenshtein (as ++ [a]) [] := by
    rw [rowOf, inits_eq_cons, List.map_cons, List.headD_cons, levenshtein_nil_right,
      levenshtein_nil_right, List.length_append, List.length_singleton]
  have hrest := fillRow_eq a as [] bs
  simp only [List.nil_append] at hrest
  rw [nextRow, hfirst]
  show levenshtein (as ++ [a]) [] :: fillRow a (levenshtein (as ++ [a]) []) bs (rowOf as bs) = _
  rw [rowOf, hrest, rowOf, inits_eq_cons bs, List.map_cons, List.tail_cons]

/-- The first row counts the characters of the second name. -/
theorem range_eq_rowOf (bs : List Char) : List.range (bs.length + 1) = rowOf [] bs := by
  rw [rowOf, funext levenshtein_nil_left]
  refine List.ext_getElem (by simp) fun n hn _ => ?_
  have hle : n ≤ bs.length := Nat.lt_succ_iff.1 (by simpa using hn)
  simp [List.getElem_inits, hle]

/-- The last entry of a row is the distance to the whole second name. -/
theorem getLastD_rowOf (as bs : List Char) : (rowOf as bs).getLastD 0 = levenshtein as bs := by
  have hlast : bs.inits[bs.length]? = some bs := by
    rw [List.getElem?_eq_getElem (by simp), List.getElem_inits, List.take_length]
  rw [List.getLastD_eq_getLast?, List.getLast?_eq_getElem?, rowOf, List.length_map, List.length_inits,
    Nat.add_sub_cancel, List.getElem?_map, hlast]
  rfl

/-- With one row after the other the beginning of the first name grows. -/
theorem foldl_nextRow (as front bs : List Char) :
    as.foldl (nextRow bs) (rowOf front bs) = rowOf (front ++ as) bs := by
  -- By a character at its end each time.
  induction as generalizing front with
  | nil => simp
  | cons a as ih => rw [List.foldl_cons, nextRow_rowOf, ih, List.append_assoc, List.singleton_append]

end editDistance

/-- **The rows come to the distance.** -/
theorem editDistance_eq_levenshtein (as bs : List Char) : editDistance as bs = levenshtein as bs := by
  rw [editDistance, editDistance.range_eq_rowOf, editDistance.foldl_nextRow, List.nil_append,
    editDistance.getLastD_rowOf]

example : editDistance "kitten".toList "sitting".toList = 3 := by decide +kernel

end StoryCheck
