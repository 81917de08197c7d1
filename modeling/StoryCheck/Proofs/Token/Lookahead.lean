import StoryCheck.Proofs.Token.Lexing

/-!
# Looking ahead

A reader that looks ahead is handed the same tokens as one that does not. The tokens that were
looked at wait in a ring of slots whose head moves on; they carry the comment and the region of
the place where they were read, and not of the place where the reader is.

* **`TokenList.nth`** — what a reader of the plain list of tokens is handed.
* **`Lookahead.Reads`** — the ring stands for the list: what waits in it is what comes next, and
  the scanner stands behind that.
* **`Lookahead.Reads.fill`**, **`.next`**, **`.peek`** — each call keeps to the list.
* **`lookahead_reads_token_list`** — so does every sequence of calls.
-/

namespace StoryCheck

/-! ## Reading the list

What a reader without a ring would do: go through a list. -/

namespace TokenList

/-- The token that is handed out after `n` others. The end of the text is handed out again and
again, but its comment only once. -/
def nth (list : TokenList) (n : Nat) : Token :=
  (list.all[n]?).getD { list.last with comment := none }

/-- The token that was handed out last of `n`. -/
def latest (list : TokenList) : (n : Nat) → Token
  | 0 => {}
  | n + 1 => list.nth n

end TokenList

/-! ## One token after the other

A reader may take steps up to a token or to the end of the text. Either way it takes the first
token off the list of those to come. -/

namespace Scanner

variable {index : LineIndex} {s : Scanner} {c : Char} {cs : List Char} {token : Token}

theorem next_nil (h : s.rest = []) :
    s.next index
      = (s.endToken index, [], { s with remarks := { s.remarks with comment := none } }) := by
  rw [next]
  split
  next => rfl
  next hrest => cases h.symm.trans hrest

theorem next_token (h : s.rest = c :: cs) (htoken : (step index s c cs).token = some token) :
    s.next index = (token, (step index s c cs).reports, (step index s c cs).scanner) := by
  rw [next]
  split
  next hrest => cases h.symm.trans hrest
  next hrest =>
    obtain ⟨rfl, rfl⟩ := List.cons.inj (h.symm.trans hrest)
    simp only [htoken]

theorem next_gap (h : s.rest = c :: cs) (htoken : (step index s c cs).token = none) :
    s.next index
      = (((step index s c cs).scanner.next index).1,
          (step index s c cs).reports ++ ((step index s c cs).scanner.next index).2.1,
          ((step index s c cs).scanner.next index).2.2) := by
  rw [next]
  split
  next hrest => cases h.symm.trans hrest
  next hrest =>
    obtain ⟨rfl, rfl⟩ := List.cons.inj (h.symm.trans hrest)
    simp only [htoken]

end Scanner

namespace TokenList

/-- What is handed out does not hang on the reports. -/
theorem nth_congr {a b : TokenList} (htokens : a.tokens = b.tokens) (hlast : a.last = b.last)
    (n : Nat) : a.nth n = b.nth n := by
  unfold nth all
  rw [htokens, hlast]

/-- Behind a token the others are handed out. -/
theorem nth_of_cons {a b : TokenList} {token : Token} (htokens : a.tokens = token :: b.tokens)
    (hlast : a.last = b.last) (n : Nat) : b.nth n = a.nth (n + 1) := by
  simp [nth, all, htokens, hlast]

/-- Behind the end of the text there is only the end of the text. -/
theorem nth_of_nil {a b : TokenList} (ha : a.tokens = []) (hb : b.tokens = [])
    (hlast : b.last = { a.last with comment := none }) (n : Nat) : b.nth n = a.nth (n + 1) := by
  cases n with
  | zero => simp [nth, all, ha, hb, hlast]
  | succ n => simp [nth, all, ha, hb, hlast]

/-- **Reading a token takes the first off the list of those to come**, and its reports off
theirs. -/
theorem next_collect (index : LineIndex) (s : Scanner) :
    (s.next index).1 = (collect index s).nth 0
      ∧ (∀ n, (collect index (s.next index).2.2).nth n = (collect index s).nth (n + 1))
      ∧ (collect index s).reports
        = (s.next index).2.1 ++ (collect index (s.next index).2.2).reports := by
  induction s using collect.induct index with
  | case1 s hrest =>
    have hagain : (s.next index).2.2.rest = [] := by
      rw [Scanner.next_nil hrest]
      exact hrest
    rw [collect_nil hrest, collect_nil hagain, Scanner.next_nil hrest]
    -- The end of the text leaves its comment behind, and stays where it is.
    exact ⟨rfl, nth_of_nil rfl rfl rfl, rfl⟩
  | case2 s c cs hrest found ih =>
    rw [collect_cons hrest]
    cases htoken : found.token with
    | some token =>
      rw [Scanner.next_token hrest htoken]
      exact ⟨rfl, nth_of_cons rfl rfl, rfl⟩
    | none =>
      -- A gap has no token of its own, so the next one is that of the rest.
      obtain ⟨hfirst, hmore, hreports⟩ := ih
      rw [Scanner.next_gap hrest htoken]
      refine ⟨hfirst.trans (nth_congr rfl rfl 0), fun n => (hmore n).trans (nth_congr rfl rfl _), ?_⟩
      rw [List.append_assoc, ← hreports]

end TokenList

/-! ## The ring

The slots behind the head, as many as tokens wait, hold what comes next. A token is read into the
slot behind these; as at most four tokens wait, that slot is not one of theirs. -/

namespace Lookahead

variable {text : String} {handed : Nat} {s : Lookahead}

/-- A reader that was handed so many tokens of a text stands for the list of those to come. -/
structure Reads (text : String) (handed : Nat) (s : Lookahead) : Prop where
  /-- What waits in the ring comes next. -/
  waits : ∀ k < s.waiting, s.ring.get (s.slot k) = (TokenList.ofText text).nth (handed + k)
  /-- The scanner stands behind what waits. -/
  ahead : ∀ n, (TokenList.collect s.index s.scanner).nth n
    = (TokenList.ofText text).nth (handed + s.waiting + n)
  /-- No more wait than a reader may look at. -/
  waiting_le : s.waiting ≤ reach + 1
  last : s.last = (TokenList.ofText text).latest handed
  /-- What is still to be reported comes behind what was reported. -/
  reports : s.reports ++ (TokenList.collect s.index s.scanner).reports
    = (TokenList.ofText text).reports

theorem reads_ofText (text : String) : Reads text 0 (ofText text) where
  waits := nofun
  ahead n := congrArg _ (Nat.zero_add n).symm
  waiting_le := Nat.zero_le _
  last := rfl
  reports := rfl

/-- Two slots of which one is less than a round behind the other are different. -/
theorem slot_ne {i j : Nat} (hlt : i < j) (hround : j < slots) : s.slot i ≠ s.slot j := by
  have hhead := s.head.isLt
  rw [Ne, Fin.ext_iff]
  unfold slot slots at *
  simp only
  omega

theorem slot_zero (s : Lookahead) : s.slot 0 = s.head := Fin.ext (Nat.mod_eq_of_lt s.head.isLt)

theorem get_set_self (ring : Vector Token slots) (i : Fin slots) (token : Token) :
    (ring.set i token).get i = token :=
  Vector.getElem_set_self i.isLt

theorem get_set_ne (ring : Vector Token slots) {i j : Fin slots} (hne : i ≠ j) (token : Token) :
    (ring.set i token).get j = ring.get j :=
  Vector.getElem_set_ne i.isLt j.isLt (Fin.val_ne_of_ne hne)

/-- Filling a slot keeps those in which tokens wait, and in the next one waits what comes next. -/
theorem Reads.fill (h : Reads text handed s) (hroom : s.waiting ≤ reach) :
    Reads text handed s.fill := by
  obtain ⟨hfirst, hmore, hreports⟩ := TokenList.next_collect s.index s.scanner
  constructor
  · intro k hk
    show (s.ring.set (s.slot s.waiting) (s.scanner.next s.index).1).get (s.slot k) = _
    rcases Nat.lt_succ_iff_lt_or_eq.1 hk with hold | rfl
    · have hfull : s.waiting < slots := Nat.lt_of_le_of_lt hroom (by decide)
      rw [get_set_ne _ (slot_ne hold hfull).symm]
      exact h.waits k hold
    · rw [get_set_self, hfirst, h.ahead, Nat.add_zero]
  · intro n
    show (TokenList.collect s.index (s.scanner.next s.index).2.2).nth n
      = (TokenList.ofText text).nth (handed + (s.waiting + 1) + n)
    rw [hmore, h.ahead]
    congr 1
    omega
  · exact Nat.succ_le_succ hroom
  · exact h.last
  · show s.reports ++ _ ++ (TokenList.collect s.index (s.scanner.next s.index).2.2).reports = _
    rw [List.append_assoc, ← hreports, h.reports]

/-- Handing out what waits at the head moves the head on. -/
theorem Reads.take (h : Reads text handed s) (hsome : 0 < s.waiting) :
    s.take.1 = (TokenList.ofText text).nth handed ∧ Reads text (handed + 1) s.take.2 := by
  have hhead : s.ring.get s.head = (TokenList.ofText text).nth handed := by
    rw [← slot_zero, h.waits 0 hsome, Nat.add_zero]
  have hleft : s.take.2.waiting = s.waiting - 1 := rfl
  have hroom := h.waiting_le
  refine ⟨hhead, ?_, ?_, ?_, hhead, h.reports⟩
  · intro k hk
    rw [hleft] at hk
    have hmoved : s.take.2.slot k = s.slot (k + 1) := by
      refine Fin.ext ?_
      show ((s.head + 1) % slots + k) % slots = (s.head + (k + 1)) % slots
      rw [Nat.mod_add_mod, Nat.add_assoc, Nat.add_comm 1 k]
    -- The slot that is left empty is not one of those behind it.
    have hother : s.head ≠ s.slot (k + 1) := by
      rw [← slot_zero]
      refine slot_ne (Nat.succ_pos k) ?_
      unfold reach at hroom
      unfold slots
      omega
    rw [hmoved]
    show (s.ring.set s.head {}).get (s.slot (k + 1)) = _
    rw [get_set_ne _ hother, h.waits (k + 1) (by omega)]
    congr 1
    omega
  · intro n
    show (TokenList.collect s.index s.scanner).nth n = _
    rw [h.ahead, hleft]
    congr 1
    omega
  · omega

/-- **Handing out a token** is reading one of the list. -/
theorem Reads.next (h : Reads text handed s) :
    s.next.1 = (TokenList.ofText text).nth handed ∧ Reads text (handed + 1) s.next.2 := by
  unfold Lookahead.next
  split
  next hempty => exact (h.fill (hempty ▸ Nat.zero_le _)).take (Nat.succ_pos _)
  next hsome => exact h.take (Nat.pos_of_ne_zero hsome)

/-- Reading more tokens hands out none. -/
theorem Reads.fillBy (h : Reads text handed s) {n : Nat} (hroom : s.waiting + n ≤ reach + 1) :
    Reads text handed (s.fillBy n) ∧ (s.fillBy n).waiting = s.waiting + n := by
  induction n generalizing s with
  | zero => exact ⟨h, rfl⟩
  | succ n ih =>
    have hfill : s.fill.waiting = s.waiting + 1 := rfl
    obtain ⟨hreads, hwaiting⟩ := ih (h.fill (by omega)) (by omega)
    exact ⟨hreads, by rw [Lookahead.fillBy, hwaiting, hfill]; omega⟩

/-- **Looking at a token** reads the list further on and hands out nothing. -/
theorem Reads.peek (h : Reads text handed s) (k : Nat) :
    (s.peek k).1 = (TokenList.ofText text).nth (handed + min k reach)
      ∧ Reads text handed (s.peek k).2 := by
  have hroom := h.waiting_le
  obtain ⟨hreads, hwaiting⟩ := h.fillBy (n := min k reach + 1 - s.waiting) (by omega)
  exact ⟨hreads.waits (min k reach) (by omega), hreads⟩

/-! ## Sequences of calls

What a reader of the list has been asked for is told by a number: how many tokens it was handed. The
ring answers like a list at that place. -/

/-- What a reader may ask for. -/
inductive Call where
  | next
  | peek (k : Nat)
deriving DecidableEq

/-- The token that a call is answered with, and the reader after it. -/
def answer (s : Lookahead) : Call → Token × Lookahead
  | .next => s.next
  | .peek k => s.peek k

/-- The reader after some calls. -/
def after (s : Lookahead) (calls : List Call) : Lookahead :=
  calls.foldl (fun s call => (s.answer call).2) s

/-- What a reader answers is told by how many tokens it was handed. -/
theorem Reads.answer_eq {a b : Lookahead} (ha : Reads text handed a) (hb : Reads text handed b)
    (call : Call) : (a.answer call).1 = (b.answer call).1 := by
  cases call with
  | next => exact ha.next.1.trans hb.next.1.symm
  | peek k => exact (ha.peek k).1.trans (hb.peek k).1.symm

/-- Calls hand out as many tokens as they ask for, whatever is looked at between them. -/
theorem Reads.after (h : Reads text handed s) (calls : List Call) :
    Reads text (handed + calls.count .next) (s.after calls) := by
  induction calls generalizing handed s with
  | nil => exact h
  | cons call calls ih =>
    cases call with
    | next =>
      have hcount : handed + (Call.next :: calls).count .next
          = handed + 1 + calls.count .next := by
        rw [List.count_cons_self]
        omega
      rw [hcount]
      exact ih h.next.2
    | peek k =>
      have hother : Call.peek k ≠ .next := nofun
      rw [List.count_cons_of_ne hother]
      exact ih (h.peek k).2

end Lookahead

open Lookahead in
/-- **Looking ahead never changes what is handed out.** After any calls of a reader the next token
is that of the list at the place that they have come to. Looking shows the token that the reader
would be handed after as many others, and changes no answer that the reader gives later. What was
handed out last is remembered, and what was reported is the start of what is reported on the whole
text. -/
theorem lookahead_reads_token_list (text : String) (calls : List Call) :
    let list := TokenList.ofText text
    let s := (Lookahead.ofText text).after calls
    let handed := calls.count .next
    s.next.1 = list.nth handed
      ∧ (∀ k, (s.peek k).1 = (s.after (List.replicate (min k 3) .next)).next.1)
      ∧ (∀ k more call,
          (((s.peek k).2.after more).answer call).1 = ((s.after more).answer call).1)
      ∧ s.last = list.latest handed
      ∧ s.reports <+: list.reports := by
  intro list s handed
  have hreads : Reads text handed s := by
    have h := (reads_ofText text).after calls
    rwa [Nat.zero_add] at h
  refine ⟨hreads.next.1, fun k => ?_, fun k more call => ?_, hreads.last, ⟨_, hreads.reports⟩⟩
  · have hlater := hreads.after (List.replicate (min k 3) .next)
    rw [List.count_replicate_self] at hlater
    exact (hreads.peek k).1.trans hlater.next.1.symm
  · exact ((hreads.peek k).2.after more).answer_eq (hreads.after more) call

/-- The comment at the end of a text is handed out once. -/
example : (List.range 3).map (fun n => ((TokenList.ofText "A // left").nth n).comment)
    = [none, some "left", none] := by
  decide +kernel

end StoryCheck
