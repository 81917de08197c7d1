import StoryCheck.Proofs.Lists
import StoryCheck.Syntax.HeaderGoal

/-!
# The texts of sections

The text of a section is shown line by line in the goal that is made of it: without the line breaks
around it, without the tabs at the start that its lines share, without the carriage returns that end
lines and without blanks at its end. Nothing else gets lost.

* **`Shows`** — a text as it is shown.
* **`shows_ofText`** — that is how a section holds its text.
* **`text_infix_toText`** — the text stands in the goal that is made of the section.
-/

namespace StoryCheck.Syntax

/-! ## Lines

What a section shows of its text: all of it but for line breaks around it, shared tabs, carriage
returns and blanks at the end. Nothing that is not a blank is lost. -/

/-- A line that is shown without some tabs and without a carriage return. The lines of a text lose
the same number of tabs, except for blank ones that have fewer. -/
def ShowsLine (level : Nat) (line shown : List Char) : Prop :=
  ∃ tabs, ∃ ending ∈ [[], ['\r']], line = List.replicate tabs '\t' ++ shown ++ ending
    ∧ (tabs = level ∨ tabs < level ∧ line.all isBlank = true)

/-- A text that is shown up to line breaks around it, tabs shared by its lines, carriage returns and
blanks at the end. -/
def Shows (text shown : List Char) : Prop :=
  ∃ before lines after level kept blanks, text = before ++ ['\n'].intercalate lines ++ after
    ∧ before.all Lexeme.isLineBreak = true ∧ after.all Lexeme.isLineBreak = true
    ∧ List.Forall₂ (ShowsLine level) lines kept
    ∧ ['\n'].intercalate kept = shown ++ blanks ∧ blanks.all isBlank = true

/-- What is cut off the end of a text passes the test. -/
theorem exists_dropEndWhile (p : Char → Bool) (text : List Char) :
    ∃ cut, text = dropEndWhile p text ++ cut ∧ cut.all p = true := by
  refine ⟨(text.reverse.takeWhile p).reverse, ?_, ?_⟩
  · rw [dropEndWhile, ← List.reverse_append, List.takeWhile_append_dropWhile, List.reverse_reverse]
  · rw [List.all_reverse]
    exact List.all_takeWhile

theorem splitLines_eq (text : List Char) : splitLines text = text.splitOn '\n' := by
  induction text with
  | nil => rfl
  | cons c cs ih =>
    obtain ⟨line, lines, hlines⟩ := List.exists_cons_of_ne_nil (List.splitOn_ne_nil '\n' cs)
    unfold splitLines
    rw [List.splitOn_cons_eq_if_modifyHead, ih, hlines]
    by_cases hc : c = '\n' <;> simp [hc]

/-- The lines of a text with line feeds between them are the text. -/
theorem intercalate_splitLines (text : List Char) : ['\n'].intercalate (splitLines text) = text := by
  rw [splitLines_eq, List.intercalate_splitOn]

theorem take_eq_replicate (line : List Char) {cut : Nat} (hcut : cut ≤ leadingTabs line) :
    line.take cut = List.replicate cut '\t' := by
  have htake : line.take cut = (line.takeWhile (· == '\t')).take cut := by
    conv_lhs => rw [← List.takeWhile_append_dropWhile (p := (· == '\t')) (l := line)]
    rw [List.take_append_of_le_length hcut]
  refine List.eq_replicate_iff.2 ⟨?_, fun c hc => ?_⟩
  · rw [htake, List.length_take]
    exact Nat.min_eq_left hcut
  · rw [htake] at hc
    exact beq_iff_eq.1 (List.all_eq_true.1 List.all_takeWhile c (List.mem_of_mem_take hc))

/-- What is cut off a line are tabs in front of it and a carriage return behind it. -/
theorem exists_dedent {line : List Char} {cut : Nat} (hcut : cut ≤ leadingTabs line) :
    ∃ ending ∈ [[], ['\r']], line = List.replicate cut '\t'
      ++ (if line.getLast? == some '\r' then line.dropLast else line).drop cut ++ ending := by
  have htake := take_eq_replicate line hcut
  split
  next hreturn =>
    obtain ⟨init, rfl⟩ := List.getLast?_eq_some_iff.1 (beq_iff_eq.1 hreturn)
    have hshort : cut ≤ init.length := by
      by_contra hlong
      -- Else the carriage return were one of the tabs.
      rw [List.take_of_length_le (by simp; omega)] at htake
      have hmem : '\r' ∈ List.replicate cut '\t' := htake ▸ by simp
      exact absurd (List.eq_of_mem_replicate hmem) (by decide)
    rw [List.take_append_of_le_length hshort] at htake
    refine ⟨['\r'], by simp, ?_⟩
    rw [List.dropLast_concat, ← htake, List.take_append_drop]
  next => exact ⟨[], by simp, by rw [← htake, List.append_nil, List.take_append_drop]⟩

/-- A line loses as many tabs as it has of the shared ones, and its carriage return. -/
theorem showsLine_dedent {level : Nat} {line : List Char}
    (hlevel : line.all isBlank = false → level ≤ leadingTabs line) :
    ShowsLine level line
      ((if line.getLast? == some '\r' then line.dropLast else line).drop (min (leadingTabs line) level)) := by
  have htabs : min (leadingTabs line) level = level
      ∨ min (leadingTabs line) level < level ∧ line.all isBlank = true := by
    cases hblank : line.all isBlank with
    | true =>
      rcases Nat.lt_or_ge (leadingTabs line) level with hfew | hmany
      · exact .inr ⟨by omega, rfl⟩
      · exact .inl (Nat.min_eq_right hmany)
    | false => exact .inl (Nat.min_eq_right (hlevel hblank))
  obtain ⟨ending, hending, hline⟩ := exists_dedent (Nat.min_le_left (leadingTabs line) level)
  exact ⟨_, ending, hending, hline, htabs⟩

/-- Each line loses the shared tabs and its carriage return. -/
theorem showsLine_dedentLines {level : Nat} (offset : Nat) (lines : List (List Char))
    (hlevel : ∀ line ∈ lines, line.all isBlank = false → level ≤ leadingTabs line) :
    List.Forall₂ (ShowsLine level) lines ((dedentLines level offset lines).map (·.1)) := by
  induction lines generalizing offset with
  | nil => exact .nil
  | cons line lines ih =>
    exact .cons (showsLine_dedent (hlevel line List.mem_cons_self))
      (ih _ fun other hmem => hlevel other (List.mem_cons_of_mem _ hmem))

theorem sharedTabs_le {lines : List (List Char)} {line : List Char} (hmem : line ∈ lines)
    (hblank : line.all isBlank = false) : sharedTabs lines ≤ leadingTabs line := by
  have htabs : leadingTabs line ∈ (lines.filter fun line => !(line.all isBlank)).map leadingTabs :=
    List.mem_map_of_mem (List.mem_filter.2 ⟨hmem, by simp [hblank]⟩)
  unfold sharedTabs
  generalize (lines.filter fun line => !(line.all isBlank)).map leadingTabs = counts at htabs
  cases hmin : counts.min? with
  | none => exact Nat.zero_le _
  | some least => exact (List.min?_eq_some_iff.1 hmin).2 _ htabs

/-- **A section shows its text.** -/
theorem shows_ofText (offset : Nat) (text : List Char) :
    Shows text (Section.ofText offset text).text := by
  obtain ⟨after, hafter, hbreaks⟩ :=
    exists_dropEndWhile Lexeme.isLineBreak (text.dropWhile Lexeme.isLineBreak)
  have htext : text = text.takeWhile Lexeme.isLineBreak ++ ['\n'].intercalate
      (splitLines (dropEndWhile Lexeme.isLineBreak (text.dropWhile Lexeme.isLineBreak))) ++ after := by
    rw [intercalate_splitLines, List.append_assoc, ← hafter, List.takeWhile_append_dropWhile]
  have hlines := showsLine_dedentLines
    (offset + (byteLength text - byteLength (text.dropWhile Lexeme.isLineBreak)))
    (splitLines (dropEndWhile Lexeme.isLineBreak (text.dropWhile Lexeme.isLineBreak)))
    fun line hmem => sharedTabs_le hmem
  obtain ⟨blanks, hblanks, hall⟩ := exists_dropEndWhile isBlank (['\n'].intercalate _)
  exact ⟨_, _, after, _, _, blanks, htext, List.all_takeWhile, hbreaks, hlines, hblanks, hall⟩

theorem mem_of_mem_intercalate {c : Char} {lines : List (List Char)}
    (h : c ∈ ['\n'].intercalate lines) : c = '\n' ∨ ∃ line ∈ lines, c ∈ line := by
  induction lines with
  | nil => simp [List.intercalate] at h
  | cons first rest ih =>
    cases rest with
    | nil => exact .inr ⟨first, by simp, by simpa [List.intercalate] using h⟩
    | cons second rest =>
      rw [List.intercalate_cons_cons, List.mem_append, List.mem_append, List.mem_singleton] at h
      rcases h with (h | h) | h
      · exact .inr ⟨first, by simp, h⟩
      · exact .inl h
      · exact (ih h).imp_right fun ⟨line, hline, hmem⟩ => ⟨line, List.mem_cons_of_mem _ hline, hmem⟩

theorem mem_intercalate_of_mem {c : Char} {lines : List (List Char)} {line : List Char}
    (hline : line ∈ lines) (h : c ∈ line) : c ∈ ['\n'].intercalate lines := by
  induction lines with
  | nil => cases hline
  | cons first rest ih =>
    cases rest with
    | nil =>
      obtain rfl := List.mem_singleton.1 hline
      simpa [List.intercalate] using h
    | cons second rest =>
      rw [List.intercalate_cons_cons]
      rcases List.mem_cons.1 hline with rfl | hline
      · exact List.mem_append_left _ (List.mem_append_left _ h)
      · exact List.mem_append_right _ (ih hline)

theorem isBlank_of_isLineBreak {c : Char} (h : Lexeme.isLineBreak c = true) : isBlank c = true := by
  simp only [Lexeme.isLineBreak, Bool.or_eq_true, beq_iff_eq] at h
  rcases h with rfl | rfl <;> decide

/-- No character gets lost that is not blank. -/
theorem Shows.mem {text shown : List Char} (h : Shows text shown) {c : Char} (hc : c ∈ text)
    (hblank : isBlank c = false) : c ∈ shown := by
  obtain ⟨before, lines, after, level, kept, blanks, rfl, hbefore, hafter, hlines, hkept, hblanks⟩ := h
  -- Blanks are all that is cut off from a section, in front of its lines and behind them.
  have hbreak {cut : List Char} (hcut : cut.all Lexeme.isLineBreak = true) : c ∉ cut := by
    intro hmem
    rw [isBlank_of_isLineBreak (List.all_eq_true.1 hcut c hmem)] at hblank
    cases hblank
  simp only [List.mem_append, hbreak hbefore, hbreak hafter, false_or, or_false] at hc
  obtain rfl | ⟨line, hline, hc⟩ := mem_of_mem_intercalate hc
  · cases hblank
  obtain ⟨rest, hrest, tabs, ending, hending, rfl, -⟩ := exists_of_forall₂ hlines hline
  have hc : c ∈ rest := by
    simp only [List.mem_append, List.mem_replicate, List.mem_cons, List.not_mem_nil, or_false]
      at hc hending
    rcases hc with (⟨-, rfl⟩ | hc) | hc
    · cases hblank
    · exact hc
    · rcases hending with rfl | rfl
      · cases hc
      · obtain rfl := List.mem_singleton.1 hc
        cases hblank
  have hshown := mem_intercalate_of_mem hrest hc
  rw [hkept, List.mem_append] at hshown
  exact hshown.resolve_right fun hmem => by
    rw [List.all_eq_true.1 hblanks c hmem] at hblank
    cases hblank

/-! ## Made goals

The goal that is made of a header goal has the texts of its sections between keywords. -/

theorem text_infix_assemble (start : Nat) {parts : List (Section × String)} {part : Section × String}
    (hmem : part ∈ parts) : part.1.text <:+: (assemble start parts).1 := by
  induction parts generalizing start with
  | nil => cases hmem
  | cons first rest ih =>
    obtain ⟨block, keyword⟩ := first
    rcases List.mem_cons.1 hmem with rfl | hmem
    · unfold assemble
      dsimp only
      split
      next hempty =>
        rw [List.isEmpty_iff.1 hempty]
        exact List.nil_infix
      next =>
        simp only [List.append_assoc]
        exact (List.prefix_append _ _).isInfix
    · exact (ih _ hmem).trans (List.suffix_append _ _).isInfix

/-- The texts of the sections stand in the goal that is made of them. -/
theorem text_infix_toText (goal : HeaderGoal) (parent : Option String) {block : Section}
    (hmem : block ∈ [goal.init, goal.kb, goal.exit]) :
    block.text <:+: (goal.toText parent).1.toList := by
  obtain ⟨keyword, hpart⟩ : ∃ keyword, (block, keyword) ∈
      [(goal.init, "KBSECTION"), (goal.kb, "EXITSECTION"), (goal.exit, "ENDEXITSECTION")] := by
    simp only [List.mem_cons, List.not_mem_nil, or_false] at hmem
    rcases hmem with rfl | rfl | rfl
    · exact ⟨_, .head _⟩
    · exact ⟨_, .tail _ (.head _)⟩
    · exact ⟨_, .tail _ (.tail _ (.head _))⟩
  have hbody := text_infix_assemble (byteLength HeaderGoal.preamble.toList) hpart
  unfold HeaderGoal.toText
  dsimp only
  rw [String.toList_append, String.toList_append, String.toList_ofList, List.append_assoc]
  exact hbody.trans ((List.prefix_append _ _).isInfix.trans (List.suffix_append _ _).isInfix)

end StoryCheck.Syntax
