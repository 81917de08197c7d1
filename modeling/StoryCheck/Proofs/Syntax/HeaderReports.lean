import StoryCheck.Proofs.Syntax.Advance
import StoryCheck.Proofs.Token.Lexing

/-!
# Where headers are reported

A header is read over the sections of its goals without a look at them, so that what is reported
of it never stands in a section. What is left out of the reports for standing in one is therefore
lexical.

* **`Cursor.InOrder`** — the tokens that are left stand one behind the other.
* **`Parse.Spares`** — a step that goes forward and reports nothing in the sections it finds.
* **`reports_eq_nil_of_silent`** — a header without a diagnostic was read without a report.
-/

namespace StoryCheck.Syntax

/-- The sections that an entry of a header comes with. -/
def HeaderEntry.blocks : HeaderEntry → List Span
  | .goal _ blocks => blocks
  | _ => []

/-! ## Places in order

The tokens of a text stand one behind the other. So everything that is reported while some tokens
are taken lies between the first and the last of them, and what is reported before a section and
behind it lies outside. -/

namespace Cursor

variable {s s₁ s' : Cursor} {token : Token} {taken : List Token} {found : List Diagnostic}
  {blocks more : List Span}

/-- The tokens that are left take up room and stand one behind the other. -/
structure InOrder (s : Cursor) : Prop where
  room : ∀ token ∈ s.ahead, token.range.span.start < token.range.span.stop
  pairwise : (s.ahead ++ [s.ending]).Pairwise fun a b => a.range.span.stop ≤ b.range.span.start

/-- Tokens that are in order stay so when some are taken. -/
theorem Passes.inOrder (h : s.Passes taken found s') (hs : s.InOrder) : s'.InOrder where
  room token hmem := hs.room token (h.ahead ▸ List.mem_append_right taken hmem)
  pairwise := by
    have hpairwise := hs.pairwise
    rw [h.ahead, ← h.ending, List.append_assoc] at hpairwise
    exact (List.pairwise_append.1 hpairwise).2.1

/-- The next token starts before those behind it, or is one of them. -/
theorem InOrder.start_peek_le (hs : s.InOrder) (hmem : token ∈ s.ahead ++ [s.ending]) :
    s.peek.range.span.start ≤ token.range.span.start := by
  have hpairwise := hs.pairwise
  cases hahead : s.ahead with
  | nil =>
    rw [hahead] at hmem
    obtain rfl := List.mem_singleton.1 hmem
    simp [peek, hahead]
  | cons first rest =>
    have hroom := hs.room first (by simp [hahead])
    have hpeek : s.peek = first := by simp [peek, hahead]
    rw [hahead] at hmem hpairwise
    rw [hpeek]
    rcases List.mem_cons.1 hmem with rfl | hmem
    · exact Nat.le_refl _
    · have := (List.pairwise_cons.1 hpairwise).1 token hmem
      omega

/-- The next token is one of those that are left, or the end of the text. -/
theorem peek_mem (s : Cursor) : s.peek ∈ s.ahead ++ [s.ending] := by
  cases hahead : s.ahead <;> simp [peek, hahead]

/-- What was passed, and what is next, starts between the two places. -/
theorem Passes.start_between (h : s.Passes taken found s') (hs : s.InOrder)
    (hmem : token ∈ taken ++ [s'.peek]) :
    s.peek.range.span.start ≤ token.range.span.start
      ∧ token.range.span.start ≤ s'.peek.range.span.start := by
  have hall : s.ahead ++ [s.ending] = taken ++ (s'.ahead ++ [s'.ending]) := by
    rw [h.ahead, h.ending, List.append_assoc]
  have hpeek := s'.peek_mem
  rcases List.mem_append.1 hmem with htaken | hnext
  · refine ⟨hs.start_peek_le (hall ▸ List.mem_append_left _ htaken), ?_⟩
    have hroom := hs.room token (h.ahead ▸ List.mem_append_left _ htaken)
    have hpairwise := hs.pairwise
    rw [hall] at hpairwise
    have := (List.pairwise_append.1 hpairwise).2.2 token htaken _ hpeek
    omega
  · obtain rfl := List.mem_singleton.1 hnext
    exact ⟨hs.start_peek_le (hall ▸ List.mem_append_right _ hpeek), Nat.le_refl _⟩

/-- Between two places stand some sections, and nothing is reported in them. -/
def Spares (s : Cursor) (blocks : List Span) (s' : Cursor) : Prop :=
  ∃ taken found, s.Passes taken found s' ∧ ∀ block ∈ blocks,
    s.peek.range.span.start < block.start ∧ block.stop ≤ s'.peek.range.span.start
      ∧ ∀ d ∈ found, isWithin d.span.start block = false

/-- Any step spares no section at all, as it were. -/
theorem LeadsTo.spares (h : s.LeadsTo s') : s.Spares [] s' := by
  obtain ⟨taken, found, hpasses⟩ := h
  exact ⟨taken, found, hpasses, nofun⟩

/-- What spares some sections and then others spares them all. -/
theorem Spares.trans (hs : s.InOrder) (h₁ : s.Spares blocks s₁) (h₂ : s₁.Spares more s') :
    s.Spares (blocks ++ more) s' := by
  obtain ⟨taken, found, hfirst, hblocks⟩ := h₁
  obtain ⟨others, further, hsecond, hmore⟩ := h₂
  -- The two steps meet at one place, and no report of the one is on the other side of it.
  have hs₁ := hfirst.inOrder hs
  have hnext := (hfirst.start_between hs hfirst.peek_mem).2
  have hlast := (hsecond.start_between hs₁ hsecond.peek_mem).2
  refine ⟨_, _, hfirst.trans hsecond, fun block hmem => ?_⟩
  rcases List.mem_append.1 hmem with hmem | hmem
  · -- The second step is behind the section.
    obtain ⟨hstart, hstop, hspared⟩ := hblocks block hmem
    refine ⟨hstart, by omega, fun d hd => ?_⟩
    rcases List.mem_append.1 hd with hd | hd
    · exact hspared d hd
    · obtain ⟨token, htoken, hplace⟩ := hsecond.places d hd
      have := (hsecond.start_between hs₁ htoken).1
      simp [isWithin, hplace]
      omega
  · -- The first step is in front of it.
    obtain ⟨hstart, hstop, hspared⟩ := hmore block hmem
    refine ⟨by omega, hstop, fun d hd => ?_⟩
    rcases List.mem_append.1 hd with hd | hd
    · obtain ⟨token, htoken, hplace⟩ := hfirst.places d hd
      have := (hfirst.start_between hs htoken).2
      simp [isWithin, hplace]
      omega
    · exact hspared d hd

/-- Fewer sections are spared a fortiori. -/
theorem Spares.mono (h : s.Spares blocks s') (hsub : more ⊆ blocks) : s.Spares more s' := by
  obtain ⟨taken, found, hpasses, hblocks⟩ := h
  exact ⟨taken, found, hpasses, fun block hmem => hblocks block (hsub hmem)⟩

end Cursor

/-! ## Steps

These lemmas follow a step along its definition as those about going forward do, with the sections
that its value speaks of as one thing more to carry. -/

namespace Parse

open Cursor

variable {α β : Type} {p : Parse α} {f : α → Parse β} {blocks : α → List Span}
  {more : β → List Span} {stops : KindSet}

/-- A step that goes forward and reports nothing in the sections it finds. -/
structure Spares (p : Parse α) (blocks : α → List Span) : Prop where
  advances : Advances p
  spares : ∀ s : Cursor, s.InOrder → s.Spares (blocks (p s).1) (p s).2

/-- A step whose value speaks of no sections has to go forward only. -/
theorem Advances.spares (h : Advances p) (hnone : ∀ s, blocks (p s).1 = []) : Spares p blocks :=
  ⟨h, fun s _ => hnone s ▸ (h s).spares⟩

/-- A value that speaks of none. -/
theorem Spares.pure {a : α} (hnone : blocks a = []) : Spares (Pure.pure a : Parse α) blocks :=
  Advances.pure.spares fun _ => hnone

/-- Each section comes from the first step or from the second. -/
theorem Spares.bind {rest : α → β → List Span} (hp : Spares p blocks)
    (hf : ∀ a, Spares (f a) (rest a))
    (hsub : ∀ a s, more (f a s).1 ⊆ blocks a ++ rest a (f a s).1) : Spares (p >>= f) more where
  advances := hp.advances.bind fun a => (hf a).advances
  spares s hs := by
    obtain ⟨taken, found, hpasses⟩ := hp.advances s
    have hsecond := (hf (p s).1).spares _ (hpasses.inOrder hs)
    exact ((hp.spares s hs).trans hs hsecond).mono (hsub _ _)

/-- A step that finds no section, in front of one that does. -/
theorem Advances.bind_spares (hp : Advances p) (hf : ∀ a, Spares (f a) more) :
    Spares (p >>= f) more :=
  (hp.spares fun _ => rfl : Spares p fun _ => []).bind hf fun _ _ => List.subset_append_right _ _

/-- A step that finds no section, behind one that does. -/
theorem Spares.bind_advances (hp : Spares p blocks) (hf : ∀ a, Advances (f a))
    (hsub : ∀ a s, more (f a s).1 ⊆ blocks a) : Spares (p >>= f) more :=
  hp.bind (fun a => ((hf a).spares fun _ => rfl : Spares (f a) fun _ => []))
    fun a s => List.Subset.trans (hsub a s) (List.subset_append_left _ _)

/-- Whichever of two steps is taken. -/
theorem Spares.ite {c : Prop} [Decidable c] {q : Parse α} (hp : Spares p blocks)
    (hq : Spares q blocks) : Spares (if c then p else q) blocks := by
  split
  · exact hp
  · exact hq

/-- A step with its range. -/
theorem Spares.ranged (hp : Spares p blocks) :
    Spares (Parse.ranged p) fun part => blocks part.1 := ⟨hp.advances.ranged, hp.spares⟩

/-- A loop spares the sections that its turns find. -/
theorem Spares.repeatUpTo {step : Parse (Option (List α))} {blocks : α → List Span}
    (hstep : Spares step fun found => (found.getD []).flatMap blocks) (bound : Nat) :
    Spares (Parse.repeatUpTo step bound) fun found => found.flatMap blocks := by
  -- Each turn spares its own, and the rest of the loop those behind.
  induction bound with
  | zero => exact .pure rfl
  | succ bound ih =>
    refine ⟨.repeatUpTo hstep.advances _, fun s hs => ?_⟩
    have hfirst := hstep.spares s hs
    obtain ⟨taken, reports, hpasses⟩ := hstep.advances s
    rw [Parse.repeatUpTo, bind_apply]
    cases hfound : (step s).1 with
    | none => exact (hstep.advances s).spares
    | some found =>
      rw [hfound] at hfirst
      refine (hfirst.trans hs (ih.spares _ (hpasses.inOrder hs))).mono ?_
      simp [bind_apply, pure_apply]

/-- The loops of the parser. -/
theorem Spares.many {step : Parse (Option (List α))} {blocks : α → List Span}
    (hstep : Spares step fun found => (found.getD []).flatMap blocks) :
    Spares (Parse.many step) fun found => found.flatMap blocks :=
  advances_get.bind_spares fun s => hstep.repeatUpTo s.ahead.length

/-! ## Headers

Only one rule of the grammar finds a section, the block between braces. The rules that lead there
are built from it and from steps that find none. -/

variable {kind : DeclarationKind} {source : List Char}

theorem advances_bracketedInteger : Advances (bracketedInteger stops) := by
  refine .bind advances_expect fun _ => .ite .pure (.bind advances_expect fun _ => ?_)
  exact .bind advances_expect fun _ => .ite (.bind advances_skipPast fun _ => .pure) .pure

theorem advances_title : Advances title :=
  .bind advances_expect fun _ => .ite .pure <| .bind advances_expect fun _ =>
    .bind advances_expect.discard fun _ => .pure

theorem advances_headerOption : Advances headerOption := by
  refine .bind advances_take fun keyword s => ?_
  have htaken := List.takeWhile_prefix (l := s.ahead)
    fun token : Token => token.range.first.line == keyword.range.first.line
  exact ⟨_, _, passes_skip (List.prefix_iff_eq_append.1 htaken).symm⟩

theorem advances_aliasBase : Advances aliasBase := by
  refine .bind advances_peek fun token => ?_
  split
  · exact .bind advances_take.discard fun _ => .pure
  · exact .bind advances_take.discard fun _ => .pure
  · exact .bind (advances_reportUnexpected _) fun _ => .bind advances_skipPast fun _ => .pure

theorem advances_aliasParts : Advances aliasParts := by
  refine .bind advances_take.discard fun _ => .bind advances_expect fun _ => .ite .pure ?_
  refine .bind advances_aliasBase fun base => ?_
  split
  · exact .pure
  refine .bind advances_expect fun _ => .ite .pure (.bind advances_expect fun name => ?_)
  split
  · exact .pure
  · exact .bind advances_eat.discard fun _ => .pure

theorem advances_definition : Advances (definition kind) := by
  refine .bind (.ranged (.bind advances_take.discard fun _ => .bind advances_signature fun _ =>
    .bind advances_isAt fun _ => ?_)) fun ⟨_, _⟩ => .pure
  exact .ite (.bind advances_skipPast fun _ => .bind advances_eat.discard fun _ => .pure)
    (.bind advances_eat.discard fun _ => .pure)

theorem advances_rawBlock : Advances rawBlock := by
  refine .bind advances_expect fun brace => ?_
  cases brace with
  | none => exact .pure
  | some brace =>
    exact .bind advances_skipTo fun _ => .bind advances_peek fun _ =>
      .bind advances_expect.discard fun _ => .pure

/-- A section goes from an opening brace to what stops the search for the closing one. -/
theorem rawBlock_cases (s : Cursor) :
    (∃ brace rest, s.ahead = brace :: rest ∧ rawBlock s =
        (some ⟨brace.range.span.stop,
            (skipTo [.rBrace] { s with ahead := rest, last := brace }).2.peek.range.span.start⟩,
          (expect .rBrace "'\x7d'" (skipTo [.rBrace] { s with ahead := rest, last := brace }).2).2))
      ∨ rawBlock s = (none, (expect .lBrace "'\x7b'" s).2) := by
  have hbrace : TokenKind.lBrace ≠ .endOfFile := by decide
  rcases eat_cases hbrace s with ⟨brace, rest, hahead, -, heat⟩ | ⟨-, heat⟩
  · refine .inl ⟨brace, rest, hahead, ?_⟩
    rw [rawBlock, bind_apply, expect, bind_apply, heat]
    rfl
  · refine .inr ?_
    rw [rawBlock, bind_apply, expect, bind_apply, heat]
    rfl

/-- Nothing is reported between the braces of a section: the tokens there are not looked at. -/
theorem spares_rawBlock : Spares rawBlock Option.toList := by
  refine ⟨advances_rawBlock, fun s hs => ?_⟩
  rcases rawBlock_cases s with ⟨brace, rest, hahead, hrun⟩ | hrun
  · have hopened := passes_token hahead
    rw [hrun]
    generalize { s with ahead := rest, last := brace } = s₁ at *
    have hskipped := passes_skipTo [.rBrace] s₁
    have hs₂ := hskipped.inOrder (hopened.inOrder hs)
    have hexpect : Advances (expect .rBrace "'\x7d'") := advances_expect
    obtain ⟨taken, found, hclosed⟩ := hexpect (skipTo [.rBrace] s₁).2
    have hpeek : s.peek = brace := by simp [Cursor.peek, hahead]
    refine ⟨_, _, (hopened.trans hskipped).trans hclosed, fun block hmem => ?_⟩
    obtain rfl : block = ⟨brace.range.span.stop, (skipTo [.rBrace] s₁).2.peek.range.span.start⟩ :=
      List.mem_singleton.1 hmem
    refine ⟨hpeek ▸ hs.room brace (by simp [hahead]), ?_, fun d hd => ?_⟩
    · exact (hclosed.start_between hs₂ hclosed.peek_mem).2
    · obtain ⟨token, htoken, hplace⟩ := hclosed.places d (by simpa using hd)
      have := (hclosed.start_between hs₂ htoken).1
      simp [isWithin, hplace]
      omega
  · rw [hrun]
    exact (advances_expect s).spares

/-- An entry of a goal spares the section that it is. -/
theorem spares_goalEntry : Spares (goalEntry stops) fun found =>
    (found.getD []).flatMap fun entry => entry.block?.toList := by
  have hblock {entry : Option Span → GoalEntry} (hentry : ∀ block, (entry block).block? = block) :
      Spares (do discard take; return some [entry (← rawBlock)]) fun found =>
        (found.getD []).flatMap fun entry => entry.block?.toList := by
    refine advances_take.discard.bind_spares fun _ => spares_rawBlock.bind_advances (fun _ => .pure) ?_
    intro block s
    simp [pure_apply, hentry]
  refine advances_isAtStop.bind_spares fun _ => .ite (.pure rfl) ?_
  refine advances_peek.bind_spares fun token => ?_
  split
  · exact advances_take.discard.bind_spares fun _ => advances_title.bind_spares fun _ =>
      advances_eat.discard.bind_spares fun _ => .pure rfl
  · exact advances_take.discard.bind_spares fun _ => advances_bracketedInteger.bind_spares fun _ =>
      advances_eat.discard.bind_spares fun _ => .pure rfl
  · exact hblock fun _ => rfl
  · exact hblock fun _ => rfl
  · exact hblock fun _ => rfl
  · exact (advances_reportUnexpected _).bind_spares fun _ => advances_take.discard.bind_spares fun _ =>
      .pure rfl

/-- The entries of a goal spare the sections of the goal. -/
theorem spares_goalEntries : Spares goalEntries fun parts =>
    parts.2.flatMap fun entry => entry.block?.toList := by
  refine advances_take.discard.bind_spares fun _ => advances_bracketedInteger.bind_spares fun _ => ?_
  refine advances_expect.bind_spares fun _ => .ite (.pure rfl) ?_
  refine (Spares.many spares_goalEntry).bind_advances (fun _ => ?_) fun _ _ => ?_
  · exact .bind advances_expect.discard fun _ => .pure
  · exact List.Subset.refl _

/-- An entry of a header spares the sections of the goal it declares. -/
theorem spares_headerEntry : Spares (headerEntry source) fun found =>
    (found.getD []).flatMap HeaderEntry.blocks := by
  have hunexpected : Spares headerEntry.unexpected fun found =>
      (found.getD []).flatMap HeaderEntry.blocks :=
    (advances_reportUnexpected _).bind_spares fun _ => advances_take.discard.bind_spares fun _ =>
      .pure rfl
  refine advances_peek.bind_spares fun token => ?_
  split
  · exact .pure rfl
  · split
    · refine advances_aliasParts.ranged.bind_spares fun ⟨parts, range⟩ => .pure ?_
      cases parts <;> rfl
    · exact advances_headerOption.bind_spares fun _ => .pure rfl
    · exact advances_headerOption.bind_spares fun _ => .pure rfl
    · refine spares_goalEntries.ranged.bind_advances (fun ⟨⟨_, _⟩, _⟩ => .pure) ?_
      rintro ⟨⟨id, entries⟩, range⟩ s
      simp [pure_apply, HeaderEntry.blocks, List.filterMap_eq_flatMap_toList]
    · split
      · exact advances_definition.bind_spares fun _ => .pure rfl
      · exact hunexpected
  · exact hunexpected

/-- So a whole header spares the sections of all its goals. -/
theorem spares_header : Spares (header source) fun parsed => parsed.2 := by
  refine (Spares.many spares_headerEntry).ranged.bind_advances (fun ⟨_, _⟩ => .pure) ?_
  rintro ⟨entries, range⟩ s block hmem
  exact hmem

end Parse

/-- The tokens of a text are in order. -/
theorem inOrder_ofText (text : String) : (Cursor.ofTokens (.ofText text)).InOrder :=
  have hordered := TokenList.ordered_ofText text
  ⟨hordered.room, hordered.pairwise⟩

/-- Sorting reports loses none. -/
theorem mem_sortBySpan {d : Diagnostic} {ds : List Diagnostic} :
    d ∈ Diagnostic.sortBySpan ds ↔ d ∈ ds :=
  (List.mergeSort_perm ds _).mem_iff

/-- **Nothing that the grammar reports of a header is left out**: a header without a diagnostic was
read without a report. -/
theorem reports_eq_nil_of_silent {text : String} (hsilent : (parseHeader text).diagnostics = []) :
    (header text.toList (Cursor.ofTokens (.ofText text))).2.reports = [] := by
  have hspares : Parse.Spares (header text.toList) fun parsed => parsed.2 := Parse.spares_header
  obtain ⟨taken, found, hpasses, hspared⟩ := hspares.spares _ (inOrder_ofText text)
  rw [parseHeader, StateT.run] at hsilent
  generalize header text.toList (Cursor.ofTokens (.ofText text)) = result at *
  obtain ⟨⟨tree, blocks⟩, after⟩ := result
  dsimp only at hsilent hspared hpasses ⊢
  refine List.eq_nil_iff_forall_not_mem.2 fun d hd => ?_
  have hwithin := List.filter_eq_nil_iff.1 hsilent d
    (mem_sortBySpan.2 (List.mem_append_right _ hd))
  obtain ⟨block, hblock, hwithin⟩ : ∃ block ∈ blocks, isWithin d.span.start block = true := by
    simpa using hwithin
  have hfound : d ∈ found := by
    rw [hpasses.reports] at hd
    simpa [Cursor.ofTokens] using hd
  exact absurd hwithin (by simp [(hspared block hblock).2.2 d hfound])

end StoryCheck.Syntax
