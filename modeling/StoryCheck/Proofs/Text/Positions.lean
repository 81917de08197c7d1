import StoryCheck.Proofs.Token.Places
import Mathlib.Data.Nat.Bitwise

/-!
# Offsets and positions

The places of a text are its offsets between characters. A place lies behind some characters of
one of the lines, and the number of the line and the number of these characters are its position.
So places and positions tell the same, as long as the two numbers fit into the packed form.

* **`LineIndex.Fits`** — texts whose places all have a packed position.
* **`LineIndex.IsPlace`** — an offset that lies behind some characters of a line.
* **`LineIndex.exists_place`** — every offset between two characters does, and its position says
  behind which.
* **`LineIndex.IsPlace.lt`** — the order of the offsets is that of lines, then of characters.
* **`positions_follow_offsets`** — there and back, in the same order.
-/

namespace StoryCheck

/-! ## Packing

Lines go into the high bits and characters into the low ones. -/

namespace PackedPosition

variable {line character line' character' : Nat}

/-- The line stands in the bits above the 22 of the character. -/
theorem pack_eq_or (line character : Nat) :
    pack line character = (line &&& (2 ^ 30 - 1)) <<< 22 ||| (character &&& (2 ^ 22 - 1)) := by
  have hlow : character % 2 ^ 22 < 2 ^ 22 := Nat.mod_lt _ (by decide)
  rw [Nat.and_two_pow_sub_one_eq_mod, Nat.and_two_pow_sub_one_eq_mod,
    ← Nat.shiftLeft_add_eq_or_of_lt hlow, Nat.shiftLeft_eq]
  rfl

theorem pack_of_lt (hline : line < lineLimit) (hcharacter : character < characterLimit) :
    pack line character = line * characterLimit + character := by
  rw [pack, Nat.mod_eq_of_lt hline, Nat.mod_eq_of_lt hcharacter]

/-- What fits is found again. -/
theorem unpack_pack (hline : line < lineLimit) (hcharacter : character < characterLimit) :
    unpack (pack line character) = (line, character) := by
  unfold unpack
  rw [pack_of_lt hline hcharacter]
  unfold lineLimit characterLimit at *
  exact Prod.ext (by simp only; omega) (by simp only; omega)

/-- Packed positions compare by line, then by character. -/
theorem pack_lt_pack (hline : line < lineLimit) (hline' : line' < lineLimit)
    (hcharacter : character < characterLimit) (hcharacter' : character' < characterLimit)
    (h : line < line' ∨ line = line' ∧ character < character') :
    pack line character < pack line' character' := by
  rw [pack_of_lt hline hcharacter, pack_of_lt hline' hcharacter']
  show (line * characterLimit + character : Nat) < line' * characterLimit + character'
  unfold characterLimit at *
  omega

end PackedPosition

/-! ## Lines

The lines of a text are the text cut into pieces, each of which starts where the one before it
ends. Only the last one does not end with a line break. -/

theorem charactersWithin_append (front back : List Char) :
    charactersWithin (byteLength front) (front ++ back) = some front.length := by
  induction front with
  | nil => rw [byteLength_nil, charactersWithin, List.length_nil]
  | cons c front ih =>
    obtain ⟨n, hn⟩ : ∃ n, c.utf8Size = n + 1 := Nat.exists_eq_add_one.2 (Char.utf8Size_pos c)
    have hsize : c.utf8Size + byteLength front = (n + byteLength front) + 1 := by omega
    rw [byteLength_cons, hsize, List.cons_append, charactersWithin, if_pos (by omega), ← hsize,
      Nat.add_sub_cancel_left, ih]
    rfl

namespace Line

/-- A line break of one character, or the second one of a pair. -/
def isBreak (c : Char) : Bool := c = '\r' || c = '\n'

/-- The characters of a line without the last one if that is a line break. What stays of a pair is
the carriage return, as the place behind that is still one of the line. -/
def body (line : Line) : List Char :=
  if line.chars.getLast?.any isBreak then line.chars.dropLast else line.chars

theorem length_le_body (line : Line) : line.chars.length ≤ line.body.length + 1 := by
  unfold body
  split
  · rw [List.length_dropLast]
    omega
  · exact Nat.le_succ _

/-- The characters of the lines of a text. -/
def pieces (cs : List Char) : List (List Char) := (split cs).1 :: (split cs).2

theorem flatten_pieces (cs : List Char) : (pieces cs).flatten = cs := by
  unfold pieces
  fun_induction split cs <;> simp_all

/-- What follows the last line break has none. -/
theorem not_isBreak_getLast (cs : List Char) :
    ∀ piece ∈ (pieces cs).getLast?, ∀ c ∈ piece, isBreak c = false := by
  unfold pieces
  fun_induction split cs with
  | case1 => simp
  | case2 cs line lines heq ih =>
    rw [heq] at ih
    exact ih
  | case3 c cs _ line lines heq hbreak ih =>
    rw [heq] at ih
    exact ih
  | case4 c cs _ line lines heq hbreak ih =>
    rw [heq] at ih
    cases lines with
    | nil =>
      intro piece hpiece d hd
      obtain rfl := Option.some.inj hpiece
      rcases List.mem_cons.1 hd with rfl | hd
      · simpa [isBreak] using hbreak
      · exact ih line rfl d hd
    | cons next lines => exact ih

/-! ### Numbered lines -/

/-- A line ends where the next one starts, or before. -/
theorem pairwise_number (start : Nat) (pieces : List (List Char)) :
    (∀ line ∈ number start pieces, start ≤ line.start)
      ∧ (number start pieces).Pairwise fun a b => a.start + byteLength a.chars ≤ b.start := by
  induction pieces generalizing start with
  | nil => exact ⟨nofun, .nil⟩
  | cons chars pieces ih =>
    obtain ⟨hstart, hpairwise⟩ := ih (start + byteLength chars)
    refine ⟨fun line hmem => ?_, List.pairwise_cons.2 ⟨hstart, hpairwise⟩⟩
    rcases List.mem_cons.1 hmem with rfl | hmem
    · exact Nat.le_refl _
    · exact Nat.le_trans (Nat.le_add_right _ _) (hstart line hmem)

theorem map_chars_number (start : Nat) (pieces : List (List Char)) :
    (number start pieces).map (·.chars) = pieces := by
  induction pieces generalizing start with
  | nil => rfl
  | cons chars pieces ih => rw [number, List.map_cons, ih]

end Line

/-! ## Places

A line of the text is told by the number of lines in front of it, and a place on it by the number of
characters. Both are bounded by what a position can hold. -/

namespace LineIndex

variable {index : LineIndex} {text : String} {offset offset' number number' character character' : Nat}

/-- An offset lies behind some characters of a line. It lies behind all of them in the last line
only; else it is the place at the start of the next line. -/
inductive IsPlace (index : LineIndex) : (offset number character : Nat) → Prop
  | intro {number : Nat} {line : Line} {front back : List Char}
    (line_eq : index.lines[number]? = some line) (chars_eq : line.chars = front ++ back)
    (ends : back = [] → number + 1 = index.lineCount) :
    IsPlace index (line.start + byteLength front) number front.length

/-- A text whose lines and their characters can be told by a packed position. A line break counts
as a character of its line if there is a place behind it that is still on the line. -/
structure Fits (index : LineIndex) : Prop where
  lines : index.lineCount ≤ PackedPosition.lineLimit
  characters : ∀ line ∈ index.lines, line.body.length < PackedPosition.characterLimit

theorem lines_ofText (text : String) : (ofText text).lines = Line.number 0 (Line.pieces text.toList) := by
  simp [ofText, ofChars, lines, Line.pieces, Line.number]

/-- An offset in a text that starts with a line is behind the line or in front of its end. -/
theorem behind_or_within {chars more before after : List Char} (h : chars ++ more = before ++ after) :
    (∃ passed, before = chars ++ passed ∧ more = passed ++ after)
      ∨ ∃ back, back ≠ [] ∧ chars = before ++ back := by
  rcases List.append_eq_append_iff.1 h with hbehind | ⟨back, rfl, rfl⟩
  · exact .inl hbehind
  · cases back with
    | nil => exact .inl ⟨[], by simp, rfl⟩
    | cons c back => exact .inr ⟨c :: back, List.cons_ne_nil _ _, rfl⟩

theorem lineCount_ofText (text : String) :
    (ofText text).lineCount = (Line.pieces text.toList).length := by
  rw [lineCount, lines_ofText, ← List.length_map (·.chars), Line.map_chars_number]

/-- Going through the lines finds the one on which the place is. -/
theorem locate_place (start count offset : Nat) (chars : List Char) (rest : List (List Char))
    {before after : List Char} (hparts : chars ++ rest.flatten = before ++ after)
    (hoffset : offset = start + byteLength before) :
    ∃ n line front back, (Line.number start (chars :: rest))[n]? = some line
      ∧ locate offset count ⟨start, chars⟩ (Line.number (start + byteLength chars) rest)
        = (count + n, line)
      ∧ line.chars = front ++ back ∧ offset = line.start + byteLength front
      ∧ (back = [] → n = rest.length) := by
  induction rest generalizing start count chars before with
  | nil =>
    refine ⟨0, ⟨start, chars⟩, before, after, rfl, rfl, ?_, hoffset, fun _ => rfl⟩
    rw [← hparts, List.flatten_nil, List.append_nil]
  | cons next rest ih =>
    have hstep : locate offset count ⟨start, chars⟩
          (Line.number (start + byteLength chars) (next :: rest))
        = if start + byteLength chars ≤ offset then
            locate offset (count + 1) ⟨start + byteLength chars, next⟩
              (Line.number (start + byteLength chars + byteLength next) rest)
          else (count, ⟨start, chars⟩) := rfl
    rw [hstep]
    rcases behind_or_within hparts with ⟨passed, rfl, hmore⟩ | ⟨back, hback, rfl⟩
    · -- The next line starts no later, so the search goes on there.
      rw [byteLength_append] at hoffset
      have hstarts : start + byteLength chars ≤ offset := by omega
      obtain ⟨n, line, front, back, hline, hlocate, hchars, hfront, hends⟩ :=
        ih (start + byteLength chars) (count + 1) next hmore (by omega)
      refine ⟨n + 1, line, front, back, hline, ?_, hchars, hfront, fun hnil => ?_⟩
      · rw [if_pos hstarts, hlocate, Nat.add_assoc, Nat.add_comm 1 n]
      · rw [hends hnil, List.length_cons]
    · -- Some characters of this line are behind the place, so the next line starts later.
      have hlength : back.length ≤ byteLength back := length_le_byteLength back
      have hpos : 0 < back.length := List.length_pos_iff.2 hback
      have hstarts : ¬ start + byteLength (before ++ back) ≤ offset := by
        rw [byteLength_append]
        omega
      refine ⟨0, _, before, back, rfl, ?_, rfl, hoffset, fun hnil => absurd hnil hback⟩
      rw [if_neg hstarts]
      rfl

/-- **Every place lies behind some characters of a line**, and its position says so. -/
theorem exists_place (h : IsBoundary text.toList offset) :
    ∃ number character, (ofText text).IsPlace offset number character
      ∧ (ofText text).position offset = PackedPosition.pack number character := by
  have hsize : offset ≤ (ofText text).size := h.le_byteLength
  obtain ⟨before, after, hparts, hoffset⟩ := h
  have hflatten : (Line.split text.toList).1 ++ (Line.split text.toList).2.flatten = before ++ after :=
    (Line.flatten_pieces text.toList).trans hparts
  obtain ⟨n, line, front, back, hline, hlocate, hchars, hfront, hends⟩ :=
    locate_place 0 0 offset _ _ hflatten (by omega)
  refine ⟨n, front.length, ?_, ?_⟩
  · have hnumber : (ofText text).lines[n]? = some line := by
      rw [lines_ofText]
      exact hline
    rw [hfront]
    refine .intro hnumber hchars fun hnil => ?_
    rw [hends hnil, lineCount_ofText, Line.pieces, List.length_cons]
  · have hfound : locate offset 0 (ofText text).first (ofText text).rest = (n, line) := by
      simpa [ofText, ofChars] using hlocate
    have hwithin : offset - line.start = byteLength front := by omega
    simp only [position, Nat.min_eq_left hsize, hfound, hwithin, hchars, charactersWithin_append,
      Option.getD_some]

/-- The offset of a position is the place that the position tells. -/
theorem IsPlace.offset_eq (h : index.IsPlace offset number character) {position : PackedPosition}
    (hposition : position.unpack = (number, character)) : index.offset position = offset := by
  cases h with
  | @intro _ line front back hline hchars hends =>
    unfold LineIndex.offset
    rw [hposition]
    simp only [hline, hchars, List.take_left]

/-- The last line has no line break to leave out. -/
theorem body_of_last {line : Line} (hline : (ofText text).lines[number]? = some line)
    (hlast : number + 1 = (ofText text).lineCount) : line.body = line.chars := by
  have hpiece : (Line.pieces text.toList).getLast? = some line.chars := by
    rw [lineCount_ofText] at hlast
    rw [List.getLast?_eq_getElem?, ← hlast, Nat.add_sub_cancel,
      ← Line.map_chars_number 0 (Line.pieces text.toList), ← lines_ofText, List.getElem?_map, hline]
    rfl
  have hnone : line.chars.getLast?.any Line.isBreak = false := by
    cases hend : line.chars.getLast? with
    | none => rfl
    | some c => exact Line.not_isBreak_getLast _ _ hpiece c (List.mem_of_getLast? hend)
  rw [Line.body, if_neg (by simp [hnone])]

/-- Places on lines that fit have positions that fit. -/
theorem IsPlace.fits (hfits : (ofText text).Fits)
    (h : (ofText text).IsPlace offset number character) :
    number < PackedPosition.lineLimit ∧ character < PackedPosition.characterLimit := by
  cases h with
  | @intro _ line front back hline hchars hends =>
    have hnumber : number < (ofText text).lineCount := (List.getElem?_eq_some_iff.1 hline).1
    have hbody := hfits.characters line (List.mem_of_getElem? hline)
    have hlength : line.chars.length = front.length + back.length := by
      rw [hchars, List.length_append]
    refine ⟨Nat.lt_of_lt_of_le hnumber hfits.lines, Nat.lt_of_le_of_lt ?_ hbody⟩
    cases back with
    | nil =>
      rw [body_of_last hline (hends rfl), hchars, List.append_nil]
    | cons c back =>
      have hle := line.length_le_body
      rw [List.length_cons] at hlength
      omega

/-- **The order of places is that of their lines, then of the characters before them.** -/
theorem IsPlace.lt (h : (ofText text).IsPlace offset number character)
    (h' : (ofText text).IsPlace offset' number' character') (hlt : offset < offset') :
    number < number' ∨ number = number' ∧ character < character' := by
  cases h with
  | @intro _ line front back hline hchars hends =>
  cases h' with
  | @intro _ line' front' back' hline' hchars' hends' =>
    have hpairwise := (Line.pairwise_number 0 (Line.pieces text.toList)).2
    rw [← lines_ofText] at hpairwise
    rcases Nat.lt_trichotomy number number' with hbefore | rfl | hbehind
    · exact .inl hbefore
    · -- On one line the place with more characters before it is the later one.
      obtain rfl := Option.some.inj (hline.symm.trans hline')
      refine .inr ⟨rfl, Nat.lt_of_not_le fun hle => ?_⟩
      have hearlier : front' <+: line.chars := ⟨back', hchars'.symm⟩
      have hlater : front <+: line.chars := ⟨back, hchars.symm⟩
      have hfront : front' <+: front := List.prefix_of_prefix_length_le hearlier hlater hle
      obtain ⟨more, rfl⟩ := hfront
      rw [byteLength_append] at hlt
      omega
    · -- A place on an earlier line is no later than the end of that line.
      have hends : line'.start + byteLength line'.chars ≤ line.start := by
        obtain ⟨hi, rfl⟩ := List.getElem?_eq_some_iff.1 hline
        obtain ⟨hj, rfl⟩ := List.getElem?_eq_some_iff.1 hline'
        exact List.pairwise_iff_getElem.1 hpairwise number' number hj hi hbehind
      rw [hchars', byteLength_append] at hends
      omega

end LineIndex

/-- **Offsets and positions tell the same**, in the same order, as long as lines and characters fit
into the packed form. -/
theorem positions_follow_offsets (text : String) (hfits : (LineIndex.ofText text).Fits) :
    let index := LineIndex.ofText text
    (∀ offset, IsBoundary text.toList offset → index.offset (index.position offset) = offset)
      ∧ ∀ first second, IsBoundary text.toList first → IsBoundary text.toList second →
        first < second → index.position first < index.position second := by
  intro index
  constructor
  · intro offset hoffset
    obtain ⟨number, character, hplace, hposition⟩ := LineIndex.exists_place hoffset
    obtain ⟨hnumber, hcharacter⟩ := hplace.fits hfits
    rw [hposition]
    exact hplace.offset_eq (PackedPosition.unpack_pack hnumber hcharacter)
  · intro first second hfirst hsecond hlt
    obtain ⟨number, character, hplace, hposition⟩ := LineIndex.exists_place hfirst
    obtain ⟨number', character', hplace', hposition'⟩ := LineIndex.exists_place hsecond
    obtain ⟨hnumber, hcharacter⟩ := hplace.fits hfits
    obtain ⟨hnumber', hcharacter'⟩ := hplace'.fits hfits
    rw [hposition, hposition']
    exact PackedPosition.pack_lt_pack hnumber hnumber' hcharacter hcharacter' (hplace.lt hplace' hlt)

/-- A text with every kind of line break, and with a character of two bytes before a pair. -/
def mixedBreaks : String := "é\r\nx\ry\n"

/-- Between the two characters of the pair the place is on the first line still. -/
theorem mixedBreaks_are_followed :
    (LineIndex.ofText mixedBreaks).Fits
      ∧ IsBoundary mixedBreaks.toList 3 ∧ IsBoundary mixedBreaks.toList 4
      ∧ (LineIndex.ofText mixedBreaks).offset ((LineIndex.ofText mixedBreaks).position 3) = 3
      ∧ (LineIndex.ofText mixedBreaks).position 3 < (LineIndex.ofText mixedBreaks).position 4 := by
  have hfits : (LineIndex.ofText mixedBreaks).Fits := ⟨by decide +kernel, by decide +kernel⟩
  have hpair : IsBoundary mixedBreaks.toList 3 :=
    ⟨['é', '\r'], ['\n', 'x', '\r', 'y', '\n'], by decide +kernel, by decide⟩
  have hline : IsBoundary mixedBreaks.toList 4 :=
    ⟨['é', '\r', '\n'], ['x', '\r', 'y', '\n'], by decide +kernel, by decide⟩
  obtain ⟨hback, horder⟩ := positions_follow_offsets mixedBreaks hfits
  exact ⟨hfits, hpair, hline, hback 3 hpair, horder 3 4 hpair hline (by decide)⟩

end StoryCheck
