import StoryCheck.Proofs.Syntax.Closers
import StoryCheck.Proofs.Syntax.Framing
import StoryCheck.Proofs.Syntax.Recovery

/-!
# Reading with one report

How to go through a rule of a grammar where one thing is missing. What comes in front of it is read
without a report, and so is what comes behind, which does not depend on what was reported.

* **`Parse.Slips`** — a step that makes one report, with `slips_after` and `Slips.andThen` for what
  comes before and behind.
* **`Parse.Mends`** — a step that reads one of several things, if need be without a closing token.
* **`Parse.Mends.many`** — several of these things, of which one is without a closing token.
-/

namespace StoryCheck.Syntax

open Cursor

/-- The report that something is missing in front of the next token. -/
def Cursor.missing (s : Cursor) (what : String) : Diagnostic :=
  .missingToken what s.peek.range.span

namespace Parse

variable {α β : Type} {p : Parse α} {f : α → Parse β} {a : α} {b : β} {d : Diagnostic}
  {s s₁ s₂ s' : Cursor} {kind : TokenKind} {kinds stops : KindSet} {what : String} {gap : Gap}

/-! ## Steps with one report

A step slips if it starts clean, makes one report and goes on. What comes after the report cannot be
followed by the lemmas about clean reading directly; but a step that frames does behind a report
what it does without one. -/

/-- A step that makes one report. The place that it comes to is given without the report. -/
structure Slips (p : Parse α) (s : Cursor) (a : α) (d : Diagnostic) (s' : Cursor) : Prop where
  run : p s = (a, s'.reporting [d])
  clean : s'.reports = []

/-- Behind the report the rest is read as in silence. -/
theorem Slips.andThen (h : Slips p s a d s₁) (hframes : Frames (f a))
    (hrest : Reads (f a) s₁ b s') : Slips (p >>= f) s b d s' :=
  ⟨by rw [bind_apply, h.run]; exact hframes.behind hrest [d], hrest.clean⟩

/-- What comes before the slip is read and taken off. -/
theorem slips_after (hrun : p s = (a, s₁)) (h : Slips (f a) s₁ b d s') : Slips (p >>= f) s b d s' :=
  ⟨by rw [bind_apply, hrun]; exact h.run, h.clean⟩

/-- A step that slips, with its range. -/
theorem Slips.ranged (h : Slips p s a d s') : Slips (ranged p) s (a, s.rangeTo s') d s' :=
  ⟨by rw [ranged_apply, h.run]; rfl, h.clean⟩

/-- A step that slips, with its value thrown away. -/
theorem Slips.discard (h : Slips p s a d s') : Slips (Functor.discard p) s () d s' :=
  ⟨by rw [discard_apply, h.run], h.clean⟩

/-- To report that something is missing is one report. -/
theorem slips_reportMissing (hclean : s.reports = []) :
    Slips (reportMissing what) s () (s.missing what) s := by
  refine ⟨?_, hclean⟩
  show ((), { s with reports := s.reports ++ [s.missing what] }) = _
  rw [hclean]
  rfl

/-- To expect a token that is not there is one report, and nothing is taken. -/
theorem slips_expect (hclean : s.reports = []) (hne : s.kindAt 0 ≠ kind) :
    Slips (expect kind what) s none (s.missing what) s :=
  slips_after (eat_of_ne hne) ((slips_reportMissing hclean).andThen .pure (reads_pure hclean))

/-- In front of a token that is looked for nothing is skipped. -/
theorem skipTo_of_mem (h : s.kindAt 0 ∈ kinds) : skipTo kinds s = ((), s) := by
  obtain ⟨_ | ⟨token, rest⟩, ending, last, reports⟩ := s
  · rfl
  · have hkind : token.kind ∈ kinds := h
    show ((), Cursor.mk ((token :: rest).drop _) _ _ _) = _
    rw [List.takeWhile_cons_of_neg (by simp [hkind])]
    rfl

/-! ## Repetition

In a loop one of the turns slips. The turns before are read, and so are those behind. Which turn it
is follows from the gap, which lies in one of the things that were written. -/

/-- A step that reads one of several things, if need be without one of its closing tokens. What is
read then differs in its ends only. Behind it stands a token of a kind in `follow`, and it starts with
one. -/
structure Mends {ω : Type} (step : Parse (Option (List α))) (tree : ω → α) (tokens : ω → List Token)
    (gaps : ω → List Gap) (withoutEnds : α → α) (follow : KindSet) : Prop where
  frames : Frames step
  starts : ∀ w, ∃ first rest, tokens w = first :: rest ∧ first.kind ∈ follow
  opens : ∀ w, ∀ gap ∈ gaps w, ∃ first rest, gap.front = first :: rest ∧ first.kind ∈ follow
  reads : ∀ {w s s'}, s.Takes (tokens w) s' → s'.kindAt 0 ∈ follow →
    Reads step s (some [tree w]) s'
  slips : ∀ {w s s₁ s'}, ∀ gap ∈ gaps w, s.Takes gap.front s₁ → s₁.Takes gap.back s' →
    s'.kindAt 0 ∈ follow → ∃ a, Slips step s (some [a]) (s₁.missing gap.what) s'
      ∧ withoutEnds a = withoutEnds (tree w)

section Repetition

variable {ω : Type} {step : Parse (Option (List α))} {tree : ω → α} {tokens : ω → List Token}
  {gaps : ω → List Gap} {withoutEnds : α → α} {follow : KindSet} {written : List ω} {bound : Nat}

/-- What may follow one of these things may start one as well, so it does not matter how many are
left. -/
theorem Mends.kindAt_of_takes (h : Mends step tree tokens gaps withoutEnds follow)
    (hnext : s'.kindAt 0 ∈ follow) (htakes : s.Takes (written.flatMap tokens) s') :
    s.kindAt 0 ∈ follow := by
  cases written with
  | nil =>
    obtain ⟨rfl, -⟩ := takes_nil_iff.1 htakes
    exact hnext
  | cons w more =>
    obtain ⟨first, rest, htokens, hkind⟩ := h.starts w
    rw [List.flatMap_cons, htokens] at htakes
    exact htakes.kindAt_zero ▸ hkind

/-- What is written without a closing token starts like the whole. -/
theorem Mends.opens_along (h : Mends step tree tokens gaps withoutEnds follow)
    (hgap : gap ∈ Gap.along tokens gaps written) :
    ∃ first rest, gap.front = first :: rest ∧ first.kind ∈ follow := by
  cases written with
  | nil => cases hgap
  | cons w more =>
    rcases List.mem_append.1 hgap with hgap | hgap
    · obtain ⟨inner, hinner, rfl⟩ := List.mem_map.1 hgap
      exact h.opens w inner hinner
    · obtain ⟨inner, -, rfl⟩ := List.mem_map.1 hgap
      obtain ⟨first, rest, htokens, hkind⟩ := h.starts w
      exact ⟨first, rest ++ inner.front, by rw [Gap.within, htokens, List.cons_append], hkind⟩

/-- A loop with a bound slips once. -/
theorem Mends.repeatUpTo (h : Mends step tree tokens gaps withoutEnds follow)
    (hgap : gap ∈ Gap.along tokens gaps written) (hfront : s.Takes gap.front s₁)
    (hback : s₁.Takes gap.back s') (hlast : s'.kindAt 0 ∈ follow)
    (hdeclines : Reads step s' none s') (hbound : s.ahead.length ≤ bound) :
    ∃ found, Slips (repeatUpTo step bound) s found (s₁.missing gap.what) s'
      ∧ found.map withoutEnds = (written.map tree).map withoutEnds := by
  have hne (w : ω) : tokens w ≠ [] := by
    obtain ⟨first, rest, htokens, -⟩ := h.starts w
    exact htokens ▸ List.cons_ne_nil first rest
  have hfollow {w : ω} {s s₁ : Cursor} (htakes : s.Takes (tokens w) s₁) : s.kindAt 0 ∈ follow := by
    obtain ⟨first, rest, htokens, hkind⟩ := h.starts w
    rw [htokens] at htakes
    exact htakes.kindAt_zero ▸ hkind
  -- The gap lies in the first thing or in one of those behind it.
  induction written generalizing s gap bound with
  | nil => cases hgap
  | cons w more ih =>
    obtain ⟨first, rest, hfirst, -⟩ := h.opens_along hgap
    have hpos : 0 < s.ahead.length := by
      rw [hfront.passes.ahead, hfirst]
      exact Nat.zero_lt_succ _
    obtain ⟨bound, rfl⟩ := Nat.exists_eq_add_one_of_ne_zero (show bound ≠ 0 by omega)
    rcases List.mem_append.1 hgap with hgap | hgap
    · obtain ⟨inner, hinner, rfl⟩ := List.mem_map.1 hgap
      obtain ⟨s₂, hback, hrest⟩ := takes_append_iff.1 hback
      obtain ⟨a, hslips, hwithoutEnds⟩ :=
        h.slips inner hinner hfront hback (h.kindAt_of_takes hlast hrest)
      have hshort : s₂.ahead.length ≤ bound := by
        have hlength := congrArg List.length (hfront.trans hback).passes.ahead
        simp only [hfirst, List.cons_append, List.length_cons, List.length_append] at hlength
        omega
      have hmore := reads_repeatUpTo tree tokens (fun s => s.kindAt 0 ∈ follow) more hrest hlast
        hdeclines hshort hne hfollow h.reads
      have hrest : Reads (do return [a] ++ (← Parse.repeatUpTo step bound)) s₂
          (a :: more.map tree) s' :=
        .andThen hmore.run (reads_pure hmore.clean)
      -- The rest of the loop was read clean; it frames, so it does the same behind the report.
      refine ⟨a :: more.map tree, hslips.andThen ?_ hrest, ?_⟩
      · exact .bind (.repeatUpTo h.frames bound) fun _ => .pure
      · rw [List.map_cons, hwithoutEnds]
        rfl
    · obtain ⟨inner, hinner, rfl⟩ := List.mem_map.1 hgap
      obtain ⟨s₂, htakes, hfront⟩ := takes_append_iff.1 hfront
      have hback : s₁.Takes inner.back s' := by simpa [Gap.within] using hback
      have hnext : s₂.kindAt 0 ∈ follow := by
        obtain ⟨first, rest, hfirst, hkind⟩ := h.opens_along hinner
        rw [hfirst] at hfront
        exact hfront.kindAt_zero ▸ hkind
      have hshort : s₂.ahead.length ≤ bound := by
        have hlength := congrArg List.length htakes.passes.ahead
        have hpos := List.length_pos_iff.2 (hne w)
        rw [List.length_append] at hlength
        omega
      obtain ⟨found, hslips, hwithoutEnds⟩ := ih hinner hfront hback hshort
      refine ⟨tree w :: found, slips_after (h.reads htakes hnext).run ?_, ?_⟩
      · exact hslips.andThen .pure (reads_pure hslips.clean)
      · rw [List.map_cons, hwithoutEnds]
        rfl

/-- A loop of the parser slips once. -/
theorem Mends.many (h : Mends step tree tokens gaps withoutEnds follow)
    (hgap : gap ∈ Gap.along tokens gaps written) (hfront : s.Takes gap.front s₁)
    (hback : s₁.Takes gap.back s') (hlast : s'.kindAt 0 ∈ follow)
    (hdeclines : Reads step s' none s') :
    ∃ found, Slips (many step) s found (s₁.missing gap.what) s'
      ∧ found.map withoutEnds = (written.map tree).map withoutEnds := by
  obtain ⟨found, hslips, hwithoutEnds⟩ :=
    h.repeatUpTo hgap hfront hback hlast hdeclines (Nat.le_refl _)
  exact ⟨found, slips_after (get_apply s) hslips, hwithoutEnds⟩

end Repetition

/-! ## Lists

A list of items passes over what is no item. With a gap in an item nothing is passed over. -/

section Lists

variable {ends starts targets : KindSet} {item : Parse α} {expected : String}

/-- The step of a list frames if its items do. -/
theorem frames_listStep (hitem : Frames item) :
    Frames (listStep ends starts item expected stops targets) :=
  .bind frames_isAtAny fun _ => .ite .pure <|
    .bind frames_isAtAny fun _ => .ite (.bind hitem fun _ => .pure) frames_passOver

/-- The step of a list reads an item where one starts. -/
theorem reads_listStep (hend : s.kindAt 0 ∉ ends) (hstart : s.kindAt 0 ∈ starts)
    (h : Reads item s a s') :
    Reads (listStep ends starts item expected stops targets) s (some [a]) s' :=
  ⟨by rw [listStep_of_start hend hstart, h.run], h.clean⟩

/-- The step of a list slips where its item does. -/
theorem slips_listStep (hend : s.kindAt 0 ∉ ends) (hstart : s.kindAt 0 ∈ starts)
    (h : Slips item s a d s') :
    Slips (listStep ends starts item expected stops targets) s (some [a]) d s' :=
  ⟨by rw [listStep_of_start hend hstart, h.run], h.clean⟩

end Lists

end Parse
end StoryCheck.Syntax
