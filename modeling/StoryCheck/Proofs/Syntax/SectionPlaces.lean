import StoryCheck.Proofs.Syntax.CallPlaces
import StoryCheck.Proofs.Syntax.SectionText
import StoryCheck.Proofs.Text.Pieces

/-!
# Where the lines of sections come from

The text of a section is cut out of the header, and a line of it that is left after dedenting stands
in the header as a whole, at the offset that was noted for it. The offset is told apart from the
line: it goes on by the length of the line as it was, whatever is cut off it.

* **`Section.ComesFrom`** — a section whose lines stand in a text at the offsets noted for them.
* **`comesFrom_of_mem_goals`** — so does every section of every goal of a header.
-/

namespace StoryCheck.Syntax

/-! ## Lines

Cutting a text into lines and taking tabs away from each moves no character to another line, so that
for each line an offset can be noted. -/

theorem not_mem_of_mem_splitLines {text line : List Char} (h : line ∈ splitLines text) :
    '\n' ∉ line := by
  induction text generalizing line with
  | nil =>
    obtain rfl := List.mem_singleton.1 h
    exact List.not_mem_nil
  | cons c cs ih =>
    unfold splitLines at h
    split at h
    · rcases List.mem_cons.1 h with rfl | h
      · exact List.not_mem_nil
      · exact ih h
    next hc =>
      split at h
      next hnone =>
        obtain rfl := List.mem_singleton.1 h
        simpa using Ne.symm hc
      next first rest hlines =>
        rcases List.mem_cons.1 h with rfl | h
        · exact List.not_mem_cons_of_ne_of_not_mem (Ne.symm hc) (ih (hlines ▸ List.mem_cons_self))
        · exact ih (hlines ▸ List.mem_cons_of_mem _ h)

theorem splitLines_ne_nil (text : List Char) : splitLines text ≠ [] := by
  rw [splitLines_eq]
  exact List.splitOn_ne_nil '\n' text

/-- The lines of the start of a text are the first lines of the text, the last of them perhaps not
to its end. -/
theorem splitLines_append (front back : List Char) :
    ∃ used more, splitLines (front ++ back) = used ++ more
      ∧ List.Forall₂ (· <+: ·) (splitLines front) used := by
  induction front with
  | nil =>
    obtain ⟨line, lines, hlines⟩ := List.exists_cons_of_ne_nil (splitLines_ne_nil back)
    exact ⟨[line], lines, hlines, .cons List.nil_prefix .nil⟩
  | cons c front ih =>
    obtain ⟨used, more, hlines, hused⟩ := ih
    rw [List.cons_append]
    unfold splitLines
    split
    · exact ⟨[] :: used, more, by rw [hlines, List.cons_append], .cons List.nil_prefix hused⟩
    · obtain ⟨line, lines, hfront⟩ := List.exists_cons_of_ne_nil (splitLines_ne_nil front)
      rw [hfront] at hused ⊢
      cases hused with
      | cons hline hrest =>
        rw [hlines]
        exact ⟨_, more, rfl, .cons (List.cons_prefix_cons.2 ⟨rfl, hline⟩) hrest⟩

/-- A line that stands in a text, and does so at an offset that is not below `low`. -/
def IsOrigin (text : List Char) (low : Nat) (line : List Char) (origin : Nat) : Prop :=
  low ≤ origin ∧ StandsAt text origin line

theorem byteLength_replicate_tab (n : Nat) : byteLength (List.replicate n '\t') = n := by
  induction n with
  | zero => rfl
  | succ n ih =>
    rw [List.replicate_succ, byteLength_cons, ih]
    exact Nat.add_comm 1 n

/-- What dedenting leaves of a line stands behind the tabs that it takes away. -/
theorem isOrigin_dedent {text line : List Char} {low offset cut : Nat} (hlow : low ≤ offset)
    (h : StandsAt text offset line) (hcut : cut ≤ leadingTabs line) :
    IsOrigin text low
      ((if line.getLast? == some '\r' then line.dropLast else line).drop cut) (offset + cut) := by
  obtain ⟨ending, -, hline⟩ := exists_dedent hcut
  rw [hline, List.append_assoc] at h
  have hkept := h.behind.of_start (List.prefix_append _ _)
  rw [byteLength_replicate_tab] at hkept
  exact ⟨Nat.le_trans hlow (Nat.le_add_right _ _), hkept⟩

/-- The lines that are left stand at the offsets noted for them, if the lines as they were stand in
the text from an offset on. -/
theorem isOrigin_dedentLines {text : List Char} {low level offset : Nat} {lines : List (List Char)}
    (hlow : low ≤ offset) (h : StandsAt text offset (['\n'].intercalate lines)) :
    ∀ kept ∈ dedentLines level offset lines, IsOrigin text low kept.1 kept.2 := by
  induction lines generalizing offset with
  | nil => exact fun _ hmem => absurd hmem List.not_mem_nil
  | cons line lines ih =>
    have hline : StandsAt text offset line := h.of_start <| by
      cases lines with
      | nil => simp [List.intercalate]
      | cons other lines =>
        rw [List.intercalate_cons_cons, List.append_assoc]
        exact List.prefix_append _ _
    intro kept hmem
    rcases List.mem_cons.1 hmem with rfl | hmem
    · exact isOrigin_dedent hlow hline (Nat.min_le_left _ _)
    · cases lines with
      | nil => cases hmem
      | cons other lines =>
        rw [List.intercalate_cons_cons] at h
        have hbehind := h.behind
        rw [byteLength_append, ← Nat.add_assoc] at hbehind
        exact ih (by omega) hbehind kept hmem

theorem not_mem_of_mem_dedentLines {level offset : Nat} {lines : List (List Char)}
    (hlines : ∀ line ∈ lines, '\n' ∉ line) :
    ∀ kept ∈ dedentLines level offset lines, '\n' ∉ kept.1 := by
  induction lines generalizing offset with
  | nil => exact fun _ hmem => absurd hmem List.not_mem_nil
  | cons line lines ih =>
    intro kept hmem
    rcases List.mem_cons.1 hmem with rfl | hmem
    · intro hfeed
      have hfeed := List.mem_of_mem_drop hfeed
      split at hfeed
      · exact hlines line List.mem_cons_self (List.dropLast_subset _ hfeed)
      · exact hlines line List.mem_cons_self hfeed
    · exact ih (fun other hother => hlines other (List.mem_cons_of_mem _ hother)) kept hmem

/-! ## Sections

The lines of a section with their offsets. Cutting the text of a section off at the end leaves the
lines in front as they are. -/

/-- The lines of a section stand in a text at the offsets noted for them, and not below `low`. -/
def Section.ComesFrom (text : List Char) (low : Nat) (block : Section) : Prop :=
  ∃ origins more, block.origins = origins ++ more
    ∧ (block.text ≠ [] → List.Forall₂ (IsOrigin text low) (splitLines block.text) origins)

/-- A section without text has no lines to come from anywhere. -/
theorem Section.comesFrom_empty (text : List Char) (low : Nat) :
    Section.ComesFrom text low {} := ⟨[], [], rfl, fun h => absurd rfl h⟩

/-- Lines that stand in a text, put together and cut at the end, do so still. -/
theorem Section.comesFrom_lines {text : List Char} {low : Nat} {lines : List (List Char × Nat)}
    (hne : lines ≠ []) (hfeed : ∀ line ∈ lines, '\n' ∉ line.1)
    (horigin : ∀ line ∈ lines, IsOrigin text low line.1 line.2) :
    Section.ComesFrom text low
      { text := trimEnd (['\n'].intercalate (lines.map (·.1))), origins := lines.map (·.2) } := by
  obtain ⟨blanks, hblanks, -⟩ := exists_dropEndWhile isBlank (['\n'].intercalate (lines.map (·.1)))
  have hsplit : splitLines (['\n'].intercalate (lines.map (·.1))) = lines.map (·.1) := by
    rw [splitLines_eq, List.splitOn_intercalate _ (by simpa using hfeed) (by simpa using hne)]
  obtain ⟨used, more, hused, hstarts⟩ :=
    splitLines_append (trimEnd (['\n'].intercalate (lines.map (·.1)))) blanks
  rw [trimEnd, ← hblanks, hsplit] at hused
  obtain ⟨first, rest, hlines, rfl, rfl⟩ := List.map_eq_append_iff.1 hused
  refine ⟨first.map (·.2), rest.map (·.2), by simp [hlines], fun _ => ?_⟩
  rw [List.forall₂_map_right_iff] at hstarts ⊢
  have horigins := (List.forall₂_and_left _ _).2
    ⟨fun line hmem => horigin line (hlines ▸ List.mem_append_left rest hmem), hstarts.flip⟩
  exact horigins.flip.imp fun _ _ ⟨⟨hlow, hstands⟩, hline⟩ => ⟨hlow, hstands.of_start hline⟩

/-- The lines of a section stand where its text does, wherever that is cut. -/
theorem Section.comesFrom_ofText {text part : List Char} {low offset : Nat} (hlow : low ≤ offset)
    (h : StandsAt text offset part) : (Section.ofText offset part).ComesFrom text low := by
  obtain ⟨after, hafter, -⟩ :=
    exists_dropEndWhile Lexeme.isLineBreak (part.dropWhile Lexeme.isLineBreak)
  have hparts : part.takeWhile Lexeme.isLineBreak ++ part.dropWhile Lexeme.isLineBreak = part :=
    List.takeWhile_append_dropWhile
  have hstart : byteLength part - byteLength (part.dropWhile Lexeme.isLineBreak)
      = byteLength (part.takeWhile Lexeme.isLineBreak) := by
    have hlength := congrArg byteLength hparts
    rw [byteLength_append] at hlength
    omega
  have hwhole : StandsAt text offset
      (part.takeWhile Lexeme.isLineBreak ++ part.dropWhile Lexeme.isLineBreak) := by rwa [hparts]
  have hinner := hwhole.behind.of_start ⟨after, hafter.symm⟩
  unfold Section.ofText
  dsimp only
  rw [hstart]
  refine Section.comesFrom_lines ?_ (not_mem_of_mem_dedentLines fun _ => not_mem_of_mem_splitLines)
    (isOrigin_dedentLines (by omega) (by rwa [intercalate_splitLines]))
  obtain ⟨line, lines, hlines⟩ := List.exists_cons_of_ne_nil (splitLines_ne_nil _)
  rw [hlines]
  exact List.cons_ne_nil _ _

/-! ## Headers

The text of a section is cut out between two tokens. So it stands in the header, behind the place
where its goal begins. -/

/-- A span over some characters of a text. -/
def IsPart (text : List Char) (span : Span) : Prop :=
  ∃ part, StandsAt text span.start part ∧ span.stop = span.start + byteLength part

/-- A goal in a text whose sections come from it, and not from in front of the goal. -/
structure HeaderGoal.ComesFrom (text : List Char) (goal : HeaderGoal) : Prop where
  start_le : goal.range.span.start ≤ byteLength text
  sections : ∀ block ∈ [goal.init, goal.kb, goal.exit], block.ComesFrom text goal.range.span.start

theorem exists_of_lastGiven {α : Type} {f : GoalEntry → Option α} {entries : List GoalEntry} {a : α}
    (h : lastGiven? f entries = some a) : ∃ entry ∈ entries, f entry = some a :=
  List.mem_filterMap.1 (List.mem_of_getLast? h)

/-- The sections of a goal come from the blocks of its entries. -/
theorem HeaderGoal.comesFrom_ofEntries {text : List Char} {id : Int} {entries : List GoalEntry}
    {range : Range} (hrange : range.span.start ≤ byteLength text)
    (hparts : ∀ entry ∈ entries, ∀ span ∈ entry.block?,
      IsPart text span ∧ range.span.start ≤ span.start) :
    (HeaderGoal.ofEntries text id entries range).ComesFrom text := by
  have hsection {f : GoalEntry → Option Span} (hf : ∀ entry, f entry = none ∨ f entry = entry.block?) :
      (((lastGiven? f entries).map fun span =>
        Section.ofText span.start (slice span.start span.stop text)).getD {}).ComesFrom text
          range.span.start := by
    cases hgiven : lastGiven? f entries with
    | none => exact Section.comesFrom_empty _ _
    | some span =>
      obtain ⟨entry, hentry, hspan⟩ := exists_of_lastGiven hgiven
      have hblock : entry.block? = some span := by
        rcases hf entry with hnone | hblock
        · cases hnone.symm.trans hspan
        · exact hblock.symm.trans hspan
      obtain ⟨⟨part, hstands, hstop⟩, hle⟩ := hparts entry hentry span hblock
      rw [Option.map_some, Option.getD_some, hstop, hstands.slice_eq]
      exact Section.comesFrom_ofText hle hstands
  refine ⟨hrange, fun block hmem => ?_⟩
  simp only [List.mem_cons, List.not_mem_nil, or_false] at hmem
  rcases hmem with rfl | rfl | rfl
  all_goals
    refine hsection fun entry => ?_
    cases entry <;> first | exact .inl rfl | exact .inr rfl

namespace Parse

open Cursor

variable {text : String} {stops : KindSet}

/-- A section is cut out of the text between tokens, and so between characters. -/
theorem ensures_rawBlock :
    Ensures text rawBlock fun block => ∀ span ∈ block, IsPart text.toList span := by
  intro s hs
  rcases rawBlock_cases s with ⟨brace, rest, hahead, hrun⟩ | hrun
  · rw [hrun]
    intro span hspan
    obtain rfl := Option.some.inj hspan
    have hskipped := (passes_token hahead).trans (passes_skipTo [.rBrace] _)
    have hs₂ := hs.of_ahead hskipped.ahead hskipped.ending
    refine StandsAt.of_boundaries (hs.places brace (by simp [hahead])).stops
      (hs₂.places _ (peek_mem _)).starts ?_
    exact hs.stop_le_peek hskipped.ahead hskipped.ending (by simp)
  · rw [hrun]
    exact fun _ hspan => absurd hspan (by simp)

theorem ensures_goalEntry : Ensures text (goalEntry stops) fun found =>
    ∀ entry ∈ found.getD [], ∀ span ∈ entry.block?, IsPart text.toList span := by
  have hblock {entry : Option Span → GoalEntry} (hentry : ∀ block, (entry block).block? = block) :
      Ensures text (do discard take; return some [entry (← rawBlock)]) fun found =>
        ∀ entry ∈ found.getD [], ∀ span ∈ entry.block?, IsPart text.toList span :=
    .skip advances_take.discard fun _ => .bind advances_rawBlock ensures_rawBlock fun block hpart =>
      .gives (by rwa [hentry])
  have hother {found : List GoalEntry} (hnone : ∀ entry ∈ found, entry.block? = none) :
      Ensures text (Pure.pure (some found)) fun found =>
        ∀ entry ∈ found.getD [], ∀ span ∈ entry.block?, IsPart text.toList span :=
    .pure fun entry hentry span hspan => by simp [hnone entry hentry] at hspan
  refine .skip advances_isAtStop fun _ => .ite (.pure (by simp)) (.skip advances_peek fun token => ?_)
  split
  · exact .skip advances_take.discard fun _ => .skip advances_title fun _ =>
      .skip advances_eat.discard fun _ => hother (by simp [GoalEntry.block?])
  · exact .skip advances_take.discard fun _ => .skip advances_bracketedInteger fun _ =>
      .skip advances_eat.discard fun _ => hother (by simp [GoalEntry.block?])
  · exact hblock fun _ => rfl
  · exact hblock fun _ => rfl
  · exact hblock fun _ => rfl
  · exact .skip (advances_reportUnexpected _) fun _ => .skip advances_take.discard fun _ =>
      hother (by simp)

theorem ensures_goalEntries : Ensures text goalEntries fun parts =>
    ∀ entry ∈ parts.2, ∀ span ∈ entry.block?, IsPart text.toList span := by
  refine .skip advances_take.discard fun _ => .skip advances_bracketedInteger fun _ => ?_
  refine .skip advances_expect fun _ => .ite (.pure (by simp)) ?_
  exact .bind (.many spares_goalEntry.advances) (.many spares_goalEntry.advances ensures_goalEntry)
    fun entries hentries => .skip advances_expect.discard fun _ => .pure hentries

/-- The range that a goal gets starts in front of its sections. -/
theorem ensures_rangedGoal : Ensures text (ranged goalEntries) fun parts =>
    parts.2.span.start ≤ byteLength text.toList ∧ ∀ entry ∈ parts.1.2, ∀ span ∈ entry.block?,
      IsPart text.toList span ∧ parts.2.span.start ≤ span.start := by
  intro s hs
  have hspares : Spares goalEntries fun parts => parts.2.flatMap fun entry => entry.block?.toList :=
    spares_goalEntries
  have hlays : s.Lays text [] (goalEntries s).2 := (hspares.advances s).lays
  obtain ⟨taken, hcarries⟩ := hlays
  obtain ⟨others, found, hpasses, hblocks⟩ := hspares.spares s hs.inOrder
  have hrange := hcarries.isIn_rangeTo hs
  refine ⟨Nat.le_trans hrange.start_le_stop hrange.stop_le, fun entry hentry span hspan => ?_⟩
  have hpart := ensures_goalEntries s hs entry hentry span hspan
  refine ⟨hpart, ?_⟩
  obtain ⟨hstart, hstop, -⟩ :=
    hblocks span (List.mem_flatMap.2 ⟨entry, hentry, Option.mem_toList.2 hspan⟩)
  show (s.rangeTo (goalEntries s).2).span.start ≤ span.start
  rcases hcarries.rangeTo_cases with ⟨rfl, hnone⟩ | ⟨front, token, -, hsome⟩
  · -- Without a token there were no room for a section.
    have hpeek : (goalEntries s).2.peek = s.peek := by
      simp [Cursor.peek, hcarries.ahead, hcarries.ending]
    obtain ⟨part, -, hlength⟩ := hpart
    rw [hpeek] at hstop
    omega
  · rw [hsome]
    exact Nat.le_of_lt hstart

/-- The goals of a header come from its text. -/
theorem ensures_headerEntry : Ensures text (headerEntry text.toList) fun found =>
    ∀ entry ∈ found.getD [], ∀ goal blocks, entry = .goal goal blocks →
      goal.ComesFrom text.toList := by
  -- Only a goal has sections, so that every other entry may be skipped.
  have hother {found : List HeaderEntry} (hnone : ∀ entry ∈ found, ∀ goal blocks,
      entry ≠ .goal goal blocks) : Ensures text (Pure.pure (some found)) fun found =>
        ∀ entry ∈ found.getD [], ∀ goal blocks, entry = .goal goal blocks →
          goal.ComesFrom text.toList :=
    .pure fun entry hentry goal blocks heq => absurd heq (hnone entry hentry goal blocks)
  have hunexpected : Ensures text headerEntry.unexpected fun found =>
      ∀ entry ∈ found.getD [], ∀ goal blocks, entry = .goal goal blocks →
        goal.ComesFrom text.toList :=
    .skip (advances_reportUnexpected _) fun _ => .skip advances_take.discard fun _ => hother (by simp)
  refine .skip advances_peek fun token => ?_
  split
  · exact .pure (by simp)
  · split
    · exact .skip advances_aliasParts.ranged fun ⟨parts, range⟩ => hother (by cases parts <;> simp)
    · exact .skip advances_headerOption fun _ => hother (by simp)
    · exact .skip advances_headerOption fun _ => hother (by simp)
    · refine .bind spares_goalEntries.advances.ranged ensures_rangedGoal
        fun ⟨⟨id, entries⟩, range⟩ ⟨hrange, hparts⟩ => .pure ?_
      intro entry hentry goal blocks heq
      obtain rfl := List.mem_singleton.1 hentry
      obtain ⟨rfl, -⟩ := HeaderEntry.goal.inj heq
      exact HeaderGoal.comesFrom_ofEntries hrange hparts
    · split
      · exact .skip advances_definition fun _ => hother (by simp)
      · exact hunexpected
  · exact hunexpected

end Parse

/-- **The goals of a header come from its text**, whatever it looks like. -/
theorem comesFrom_of_mem_goals {text : String} {goal : HeaderGoal}
    (hgoal : goal ∈ (parseHeader text).tree.goals) : goal.ComesFrom text.toList := by
  have hentries := Parse.Ensures.many Parse.spares_headerEntry.advances
    Parse.ensures_headerEntry _ (Cursor.isIn_ofText text)
  obtain ⟨entry, hentry, heq⟩ := List.mem_filterMap.1 hgoal
  cases entry with
  | goal other blocks =>
    obtain rfl := Option.some.inj heq
    exact hentries _ hentry _ _ rfl
  | typeAlias _ => cases heq
  | definition _ => cases heq

end StoryCheck.Syntax
