import StoryCheck.Proofs.Syntax.SectionPlaces

/-!
# Source maps

A goal that is made of a header goal is a list of lines that were copied from the header and of text
that was not in it. The map of the goal leads from each byte of a copied line to the same byte of the
header, and from every other place to the end of the copied line before it.

* **`HeaderGoal.layout`** — the pieces of a made goal, told apart without the map.
* **`SourceMap.IsFaithful`** — what a map does for the pieces of a text.
* **`Traces`** — the lines of a map follow the pieces of a text; the lookup is worked out from that.
* **`source_maps_are_faithful`** — the maps of all goals of a header are faithful.
-/

namespace StoryCheck

/-! ## Bytes

Offsets count bytes, so what a map says is stated for the bytes of both texts. -/

/-- The bytes of a text. -/
def utf8Bytes (cs : List Char) : List UInt8 := cs.flatMap String.utf8EncodeChar

theorem length_utf8Bytes (cs : List Char) : (utf8Bytes cs).length = byteLength cs := by
  induction cs with
  | nil => rfl
  | cons c cs ih =>
    rw [utf8Bytes, List.flatMap_cons, List.length_append, String.length_utf8EncodeChar]
    exact congrArg (c.utf8Size + ·) ih

theorem utf8Bytes_append (as bs : List Char) : utf8Bytes (as ++ bs) = utf8Bytes as ++ utf8Bytes bs :=
  List.flatMap_append

/-- The bytes of a part stand in the text where the part does. -/
theorem StandsAt.getElem?_utf8Bytes {text part : List Char} {offset k : Nat}
    (h : StandsAt text offset part) (hk : k < byteLength part) :
    (utf8Bytes text)[offset + k]? = (utf8Bytes part)[k]? := by
  obtain ⟨front, back, rfl, rfl⟩ := h
  rw [utf8Bytes_append, utf8Bytes_append, ← length_utf8Bytes front,
    List.getElem?_append_right (Nat.le_add_right _ _), Nat.add_sub_cancel_left,
    List.getElem?_append_left (by rwa [length_utf8Bytes])]

namespace Syntax

/-! ## Layouts

A made goal is laid out in pieces: lines that are copied from the header, and text that is not in
it. -/

/-- A piece of a made goal. -/
inductive Piece where
  /-- A line that was copied from a section. -/
  | copied (line : List Char)
  /-- What was not in the header. -/
  | made (text : List Char)

namespace Piece

def text : Piece → List Char
  | copied line => line
  | made text => text

def IsMade : Piece → Prop
  | copied _ => False
  | made _ => True

/-- The text of pieces one behind the other. -/
def textOf (pieces : List Piece) : List Char := pieces.flatMap text

theorem textOf_append (before after : List Piece) :
    textOf (before ++ after) = textOf before ++ textOf after := List.flatMap_append

/-- The offset behind some pieces. -/
def lengthOf (pieces : List Piece) : Nat := byteLength (textOf pieces)

theorem lengthOf_append (before after : List Piece) :
    lengthOf (before ++ after) = lengthOf before + lengthOf after := by
  rw [lengthOf, textOf_append, byteLength_append]
  rfl

theorem lengthOf_cons (piece : Piece) (rest : List Piece) :
    lengthOf (piece :: rest) = byteLength piece.text + lengthOf rest := byteLength_append _ _

/-- Copied lines, each with a line feed behind it. -/
def ofLines (lines : List (List Char)) : List Piece :=
  lines.flatMap fun line => [.copied line, .made ['\n']]

/-- A section and the keyword that follows it. -/
def ofSection (part : Section × String) : List Piece :=
  (if part.1.text.isEmpty then [] else ofLines (splitLines part.1.text))
    ++ [.made (part.2.toList ++ ['\n'])]

end Piece

/-- The line that names a parent. -/
def parentLine (parent : Option String) : List Char :=
  match parent with
  | some parent => s!"ParentTargetEdge \"{parent}\";\n".toList
  | none => []

/-- The pieces of the goal that is made of a header goal. -/
def HeaderGoal.layout (goal : HeaderGoal) (parent : Option String) : List Piece :=
  .made HeaderGoal.preamble.toList
    :: [(goal.init, "KBSECTION"), (goal.kb, "EXITSECTION"), (goal.exit, "ENDEXITSECTION")].flatMap
      Piece.ofSection
    ++ [.made (parentLine parent)]

/-- A map that leads from a text of pieces to a header, in which it goes no further back than to the
place `start`. -/
structure SourceMap.IsFaithful (map : SourceMap) (header : List Char) (start : Nat)
    (pieces : List Piece) : Prop where
  /-- A byte of a copied line is mapped to the same byte of the header. -/
  byte : ∀ before line after, pieces = before ++ .copied line :: after → ∀ k < byteLength line,
    ∃ byte, (utf8Bytes (Piece.textOf pieces))[Piece.lengthOf before + k]? = some byte
      ∧ (utf8Bytes header)[map.offset (Piece.lengthOf before + k)]? = some byte
  /-- The bytes of a copied line are mapped to offsets one behind the other. -/
  consecutive : ∀ before line after, pieces = before ++ .copied line :: after →
    ∀ k < byteLength line,
      map.offset (Piece.lengthOf before + k) = map.offset (Piece.lengthOf before) + k
  /-- A place that is in no copied line is mapped to the end of the one before it. -/
  closest : ∀ before line made after, pieces = before ++ .copied line :: made ++ after →
    (∀ piece ∈ made, piece.IsMade) → ∀ offset, Piece.lengthOf before + byteLength line ≤ offset →
      offset < Piece.lengthOf (before ++ .copied line :: made) ∨ after = [] →
      map.offset offset = map.offset (Piece.lengthOf before) + byteLength line
  /-- A place in front of all copied lines is mapped to the start. -/
  fallback : ∀ made after, pieces = made ++ after → (∀ piece ∈ made, piece.IsMade) →
    ∀ offset, offset < Piece.lengthOf made ∨ after = [] → map.offset offset = start
  /-- Every place is mapped into the header. -/
  inside : ∀ offset, start ≤ map.offset offset ∧ map.offset offset ≤ byteLength header
  /-- Every span is mapped to one of the header. -/
  span : ∀ span, start ≤ (map.span span).start ∧ (map.span span).start ≤ (map.span span).stop
    ∧ (map.span span).stop ≤ byteLength header

/-! ## Looking up

An offset is looked up among the starts of copied lines, and the last one that is not behind it
counts. -/

namespace SourceMap

variable {lines front back : List LineOrigin} {line : LineOrigin} {fallback offset : Nat}

theorem offset_cons (line : LineOrigin) (lines : List LineOrigin) (fallback offset : Nat) :
    SourceMap.offset ⟨line :: lines, fallback⟩ offset =
      if line.start ≤ offset then
        SourceMap.offset ⟨lines, line.origin + min (offset - line.start) line.size⟩ offset
      else fallback := by
  unfold SourceMap.offset
  by_cases hstart : line.start ≤ offset
  · rw [if_pos hstart, List.takeWhile_cons_of_pos (by simpa using hstart)]
    generalize lines.takeWhile (fun line => decide (line.start ≤ offset)) = found
    rw [List.getLast?_cons]
    cases found.getLast? <;> rfl
  · rw [if_neg hstart, List.takeWhile_cons_of_neg (by simpa using hstart)]
    rfl

/-- Lines behind an offset do not count. -/
theorem offset_of_lt (h : ∀ line ∈ lines, offset < line.start) :
    SourceMap.offset ⟨lines, fallback⟩ offset = fallback := by
  cases lines with
  | nil => rfl
  | cons line rest =>
    rw [offset_cons, if_neg (Nat.not_le_of_lt (h line List.mem_cons_self))]

/-- Of the lines that start no later than an offset the last one counts. -/
theorem offset_of_le (hfront : ∀ line ∈ front, line.start ≤ offset) (hline : line.start ≤ offset)
    (hback : ∀ line ∈ back, offset < line.start) :
    SourceMap.offset ⟨front ++ line :: back, fallback⟩ offset
      = line.origin + min (offset - line.start) line.size := by
  induction front generalizing fallback with
  | nil => rw [List.nil_append, offset_cons, if_pos hline, offset_of_lt hback]
  | cons first front ih =>
    rw [List.cons_append, offset_cons, if_pos (hfront first List.mem_cons_self)]
    exact ih fun other hmem => hfront other (List.mem_cons_of_mem _ hmem)

/-- An offset is mapped to a line, or to the place in front of all lines. -/
theorem offset_cases (map : SourceMap) (offset : Nat) : map.offset offset = map.fallback
    ∨ ∃ line ∈ map.lines, map.offset offset = line.origin + min (offset - line.start) line.size := by
  unfold SourceMap.offset
  split
  next line hline =>
    exact .inr ⟨line, (List.takeWhile_sublist _).subset (List.mem_of_getLast? hline), rfl⟩
  next => exact .inl rfl

end SourceMap

/-! ## Tracing

The lines of a map follow the pieces of the text. That is kept when pieces are put together, which
is how the text is made. -/

/-- Lines of a map that follow some pieces of a text from an offset on: one for each copied line,
with its place in the header. -/
inductive Traces (header : List Char) (low : Nat) : (start : Nat) → List Piece → List LineOrigin → Prop
  | nil {start : Nat} : Traces header low start [] []
  | copied {start origin : Nat} {line : List Char} {pieces : List Piece} {lines : List LineOrigin}
    (stands : IsOrigin header low line origin)
    (more : Traces header low (start + byteLength line) pieces lines) :
    Traces header low start (.copied line :: pieces) (⟨start, origin, byteLength line⟩ :: lines)
  | made {start : Nat} {text : List Char} {pieces : List Piece} {lines : List LineOrigin}
    (more : Traces header low (start + byteLength text) pieces lines) :
    Traces header low start (.made text :: pieces) lines

namespace Traces

variable {header : List Char} {low start offset : Nat} {pieces before after : List Piece}
  {line : List Char} {lines front back : List LineOrigin}

/-- The lines stand between the ends of the pieces. -/
theorem between (h : Traces header low start pieces lines) :
    ∀ line ∈ lines, start ≤ line.start ∧ line.start ≤ start + Piece.lengthOf pieces := by
  induction h with
  | nil => exact fun _ hmem => absurd hmem List.not_mem_nil
  | copied stands more ih =>
    intro other hmem
    rw [Piece.lengthOf_cons, Piece.text]
    rcases List.mem_cons.1 hmem with rfl | hmem
    · dsimp only
      omega
    · have := ih other hmem
      omega
  | made more ih =>
    intro other hmem
    rw [Piece.lengthOf_cons, Piece.text]
    have := ih other hmem
    omega

theorem append (hfront : Traces header low start before front)
    (hback : Traces header low (start + Piece.lengthOf before) after back) :
    Traces header low start (before ++ after) (front ++ back) := by
  induction hfront with
  | nil => exact hback
  | copied stands more ih =>
    refine .copied stands (ih ?_)
    rwa [Piece.lengthOf_cons, Piece.text, ← Nat.add_assoc] at hback
  | made more ih =>
    refine .made (ih ?_)
    rwa [Piece.lengthOf_cons, Piece.text, ← Nat.add_assoc] at hback

theorem of_append (h : Traces header low start (before ++ after) lines) :
    ∃ front back, lines = front ++ back ∧ Traces header low start before front
      ∧ Traces header low (start + Piece.lengthOf before) after back := by
  induction before generalizing start lines with
  | nil => exact ⟨[], lines, rfl, .nil, h⟩
  | cons piece before ih =>
    rw [Piece.lengthOf_cons, ← Nat.add_assoc]
    cases h with
    | copied stands more =>
      obtain ⟨front, back, rfl, hfront, hback⟩ := ih more
      exact ⟨_ :: front, back, rfl, .copied stands hfront, hback⟩
    | made more =>
      obtain ⟨front, back, rfl, hfront, hback⟩ := ih more
      exact ⟨front, back, rfl, .made hfront, hback⟩

/-- Without a copied line there is no line. -/
theorem eq_nil (h : Traces header low start pieces lines) (hmade : ∀ piece ∈ pieces, piece.IsMade) :
    lines = [] := by
  induction h with
  | nil => rfl
  | copied stands more ih => exact absurd (hmade _ List.mem_cons_self) id
  | made more ih => exact ih fun piece hmem => hmade piece (List.mem_cons_of_mem _ hmem)

/-- Every line stands in the header. -/
theorem isOrigin (h : Traces header low start pieces lines) :
    ∀ line ∈ lines, low ≤ line.origin ∧ line.origin + line.size ≤ byteLength header := by
  induction h with
  | nil => exact fun _ hmem => absurd hmem List.not_mem_nil
  | copied stands more ih =>
    intro other hmem
    rcases List.mem_cons.1 hmem with rfl | hmem
    · exact ⟨stands.1, stands.2.le_byteLength⟩
    · exact ih other hmem
  | made more ih => exact ih

/-- A copied line has a line of the map, behind those of the pieces before it. -/
theorem of_copied (h : Traces header low 0 (before ++ .copied line :: after) lines) :
    ∃ origin front back, lines = front ++ ⟨Piece.lengthOf before, origin, byteLength line⟩ :: back
      ∧ IsOrigin header low line origin ∧ (∀ other ∈ front, other.start ≤ Piece.lengthOf before)
      ∧ Traces header low (Piece.lengthOf before + byteLength line) after back := by
  obtain ⟨front, rest, rfl, hfront, hrest⟩ := h.of_append
  rw [Nat.zero_add] at hrest
  cases hrest with
  | copied stands more =>
    refine ⟨_, front, _, rfl, stands, fun other hmem => ?_, more⟩
    have := (hfront.between other hmem).2
    omega

/-- What follows text that was not in the header has its lines behind that text. -/
theorem lt_start (h : Traces header low start (before ++ after) lines)
    (hmade : ∀ piece ∈ before, piece.IsMade)
    (hlt : offset < start + Piece.lengthOf before ∨ after = []) :
    ∀ line ∈ lines, offset < line.start := by
  obtain ⟨front, back, rfl, hfront, hback⟩ := h.of_append
  obtain rfl := hfront.eq_nil hmade
  intro line hmem
  rcases hlt with hlt | rfl
  · have := (hback.between line hmem).1
    omega
  · cases hback
    cases hmem

/-- **A map whose lines follow the pieces of a text is faithful.** -/
theorem isFaithful (h : Traces header low 0 pieces lines) (hlow : low ≤ byteLength header) :
    SourceMap.IsFaithful ⟨lines, low⟩ header low pieces := by
  have hinside (offset : Nat) : low ≤ SourceMap.offset ⟨lines, low⟩ offset
      ∧ SourceMap.offset ⟨lines, low⟩ offset ≤ byteLength header := by
    rcases SourceMap.offset_cases ⟨lines, low⟩ offset with hnone | ⟨line, hline, hoffset⟩
    · rw [hnone]
      exact ⟨Nat.le_refl _, hlow⟩
    · have := h.isOrigin line hline
      rw [hoffset]
      omega
  -- The offset that a place in a copied line has, where the line was.
  have hcopied {before after : List Piece} {line : List Char}
      (hpieces : pieces = before ++ .copied line :: after) :
      ∃ origin, IsOrigin header low line origin ∧ ∀ k < byteLength line,
        SourceMap.offset ⟨lines, low⟩ (Piece.lengthOf before + k) = origin + k := by
    subst hpieces
    obtain ⟨origin, front, back, rfl, horigin, hfront, hback⟩ := h.of_copied
    refine ⟨origin, horigin, fun k hk => ?_⟩
    rw [SourceMap.offset_of_le]
    · dsimp only
      omega
    · exact fun other hmem => Nat.le_trans (hfront other hmem) (Nat.le_add_right _ _)
    · exact Nat.le_add_right _ _
    · intro other hmem
      have := (hback.between other hmem).1
      omega
  constructor
  case byte =>
    intro before line after hpieces k hk
    obtain ⟨origin, horigin, hoffset⟩ := hcopied hpieces
    have hmade : StandsAt (Piece.textOf pieces) (Piece.lengthOf before) line := by
      refine ⟨Piece.textOf before, Piece.textOf after, ?_, rfl⟩
      rw [hpieces, Piece.textOf_append]
      rfl
    have hbyte : k < (utf8Bytes line).length := by rwa [length_utf8Bytes]
    refine ⟨(utf8Bytes line)[k], ?_, ?_⟩
    · rw [hmade.getElem?_utf8Bytes hk, List.getElem?_eq_getElem]
    · rw [hoffset k hk, horigin.2.getElem?_utf8Bytes hk, List.getElem?_eq_getElem]
  case consecutive =>
    intro before line after hpieces k hk
    obtain ⟨origin, -, hoffset⟩ := hcopied hpieces
    have hfirst := hoffset 0 (by omega)
    rw [Nat.add_zero] at hfirst
    rw [hoffset k hk, hfirst, Nat.add_zero]
  case closest =>
    intro before line made after hpieces hmade offset hle hlt
    rw [List.append_assoc] at hpieces
    subst hpieces
    obtain ⟨origin, front, back, rfl, -, hfront, hback⟩ := h.of_copied
    have hbehind : ∀ other ∈ back, offset < other.start := hback.lt_start hmade (by
      simpa only [Piece.lengthOf_append, Piece.lengthOf_cons, Piece.text, Nat.add_assoc] using hlt)
    rw [SourceMap.offset_of_le, SourceMap.offset_of_le hfront (Nat.le_refl _)]
    · dsimp only
      omega
    · intro other hmem
      have := hbehind other hmem
      omega
    · intro other hmem
      have := hfront other hmem
      omega
    · dsimp only
      omega
    · exact hbehind
  case fallback =>
    intro made after hpieces hmade offset hlt
    subst hpieces
    exact SourceMap.offset_of_lt (h.lt_start hmade (by simpa using hlt))
  case inside => exact hinside
  case span =>
    intro span
    refine ⟨(hinside _).1, Nat.le_max_left _ _, ?_⟩
    exact Nat.max_le.2 ⟨(hinside _).2, (hinside _).2⟩

end Traces

/-! ## Made goals

The text and the map of a goal are made in one go from its sections, and the layout describes both. -/

theorem Piece.textOf_ofLines {lines : List (List Char)} (hne : lines ≠ []) :
    textOf (ofLines lines) = ['\n'].intercalate lines ++ ['\n'] := by
  induction lines with
  | nil => exact absurd rfl hne
  | cons line lines ih =>
    have hline : textOf (ofLines (line :: lines)) = line ++ '\n' :: textOf (ofLines lines) := rfl
    rw [hline]
    cases lines with
    | nil => simp [ofLines, textOf, List.intercalate]
    | cons other lines =>
      rw [ih (List.cons_ne_nil _ _), List.intercalate_cons_cons]
      simp

/-- The lines of a section are traced as they are copied. -/
theorem traces_ofLines {header : List Char} {low : Nat} {lines : List (List Char)}
    {origins : List Nat} (h : List.Forall₂ (IsOrigin header low) lines origins) (more : List Nat)
    (start : Nat) :
    Traces header low start (Piece.ofLines lines) (Section.linesAt start lines (origins ++ more)) := by
  induction h generalizing start with
  | nil => exact .nil
  | cons stands _ ih => exact .copied stands (.made (ih _))

/-- A section is copied line by line, and its keyword put behind it. -/
theorem traces_ofSection {header : List Char} {low : Nat} {block : Section}
    (h : block.ComesFrom header low) (keyword : String) (start : Nat) :
    let copied := if block.text.isEmpty then ([], [])
      else (block.text ++ ['\n'], Section.linesAt start (splitLines block.text) block.origins)
    copied.1 ++ keyword.toList ++ ['\n'] = Piece.textOf (Piece.ofSection (block, keyword))
      ∧ Traces header low start (Piece.ofSection (block, keyword)) copied.2 := by
  unfold Piece.ofSection
  dsimp only
  split
  next => exact ⟨by simp [Piece.textOf, Piece.text], .made .nil⟩
  next hempty =>
    obtain ⟨origins, more, horigins, hlines⟩ := h
    have hlines := hlines (by simpa using hempty)
    constructor
    · rw [Piece.textOf_append, Piece.textOf_ofLines (splitLines_ne_nil _), intercalate_splitLines]
      simp [Piece.textOf, Piece.text]
    · rw [horigins, ← List.append_nil (Section.linesAt _ _ _)]
      exact (traces_ofLines hlines more start).append (.made .nil)

/-- Sections and keywords are put together as they are laid out, and traced so. -/
theorem traces_assemble {header : List Char} {low : Nat} {parts : List (Section × String)}
    (hparts : ∀ part ∈ parts, part.1.ComesFrom header low) (start : Nat) :
    (assemble start parts).1 = Piece.textOf (parts.flatMap Piece.ofSection)
      ∧ Traces header low start (parts.flatMap Piece.ofSection) (assemble start parts).2 := by
  induction parts generalizing start with
  | nil => exact ⟨rfl, .nil⟩
  | cons part parts ih =>
    obtain ⟨block, keyword⟩ := part
    obtain ⟨hpiece, hfirst⟩ := traces_ofSection (hparts (block, keyword) List.mem_cons_self) keyword start
    obtain ⟨htext, hrest⟩ := ih (fun other hmem => hparts other (List.mem_cons_of_mem _ hmem))
      (start + byteLength (Piece.textOf (Piece.ofSection (block, keyword))))
    rw [List.flatMap_cons, Piece.textOf_append, ← htext]
    refine ⟨?_, hfirst.append ?_⟩
    · rw [← hpiece]
      rfl
    · rw [← hpiece] at hrest
      rw [Piece.lengthOf, ← hpiece]
      exact hrest

/-- **The map of a made goal is faithful**, if the sections of the goal come from the header. -/
theorem HeaderGoal.ComesFrom.isFaithful {header : List Char} {goal : HeaderGoal}
    (h : goal.ComesFrom header) (parent : Option String) :
    (goal.toText parent).1.toList = Piece.textOf (goal.layout parent)
      ∧ (goal.toText parent).2.IsFaithful header goal.range.span.start (goal.layout parent) := by
  have hsections : ∀ part ∈ [(goal.init, "KBSECTION"), (goal.kb, "EXITSECTION"),
      (goal.exit, "ENDEXITSECTION")], part.1.ComesFrom header goal.range.span.start := by
    simpa using h.sections
  unfold HeaderGoal.toText HeaderGoal.layout
  generalize [(goal.init, "KBSECTION"), (goal.kb, "EXITSECTION"), (goal.exit, "ENDEXITSECTION")]
    = parts at *
  obtain ⟨htext, htraces⟩ := traces_assemble hsections (byteLength HeaderGoal.preamble.toList)
  dsimp only
  constructor
  · rw [String.toList_append, String.toList_append, String.toList_ofList, htext,
      Piece.textOf_append]
    cases parent <;> simp [Piece.textOf, Piece.text, parentLine]
  · rw [← Nat.zero_add (byteLength _)] at htraces
    have hwhole := htraces.append (.made .nil : Traces header _ _ [.made (parentLine parent)] [])
    rw [List.append_nil, Nat.zero_add] at hwhole
    exact Traces.isFaithful (.made (by rwa [Nat.zero_add])) h.start_le

/-- **Source maps are faithful.** The text that is made of a goal of a header is made up of lines that
are copied from the sections of the goal and of keywords around them, and its map leads from each copied
byte to where it stands in the header. -/
theorem source_maps_are_faithful (text : String) :
    ∀ made ∈ (parseHeader text).tree.goalTexts, ∃ goal ∈ (parseHeader text).tree.goals, ∃ parent,
      made = (goal.title, goal.toText parent)
        ∧ made.2.1.toList = Piece.textOf (goal.layout parent)
        ∧ made.2.2.IsFaithful text.toList goal.range.span.start (goal.layout parent) := by
  intro made hmade
  obtain ⟨goal, hgoal, rfl⟩ := List.mem_map.1 hmade
  exact ⟨goal, hgoal, _, rfl, (comesFrom_of_mem_goals hgoal).isFaithful _⟩

/-- A header with a goal of one indented action. -/
def indentedGoal : String :=
  "Goal(1) \x7b\n\tTitle(\"Start\");\n\tINIT \x7b\n\t\tDB_A(1);\n\t\x7d\n\x7d\n"

theorem indentedGoal_is_mapped : ∃ made ∈ (parseHeader indentedGoal).tree.goalTexts,
    made.1 = "Start" ∧ made.2.2.offset 45 = 0 ∧ made.2.2.offset 46 = 37
      ∧ ∃ goal ∈ (parseHeader indentedGoal).tree.goals, ∃ parent,
        made.2.2.IsFaithful indentedGoal.toList goal.range.span.start (goal.layout parent) := by
  obtain ⟨made, hmade, htitle, hpreamble, hcopied⟩ :
      ∃ made ∈ (parseHeader indentedGoal).tree.goalTexts,
        made.1 = "Start" ∧ made.2.2.offset 45 = 0 ∧ made.2.2.offset 46 = 37 := by
    decide +kernel
  obtain ⟨goal, hgoal, parent, -, -, hfaithful⟩ := source_maps_are_faithful indentedGoal made hmade
  exact ⟨made, hmade, htitle, hpreamble, hcopied, goal, hgoal, parent, hfaithful⟩

end Syntax
end StoryCheck
