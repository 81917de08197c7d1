import StoryCheck.Proofs.Token.Lexing

/-!
# Where tokens stand

A token covers some characters of its text, none of them in part, and carries the positions of its
two ends. So does the token at the end of the text, which covers none.

* **`Range.IsIn`** — a range of a text.
* **`TokenList.isIn_ofText`** — the ranges of all tokens of a text are such.
-/

namespace StoryCheck

/-- An offset between two characters of a text, at its start or at its end. -/
def IsBoundary (cs : List Char) (offset : Nat) : Prop :=
  ∃ before after, cs = before ++ after ∧ byteLength before = offset

theorem IsBoundary.le_byteLength {cs : List Char} {offset : Nat} (h : IsBoundary cs offset) :
    offset ≤ byteLength cs := by
  obtain ⟨before, after, rfl, rfl⟩ := h
  rw [byteLength_append]
  exact Nat.le_add_right _ _

/-- A range of a text: it does not stop before it starts, its ends stand in the text and between
characters, and its positions are those of its ends. -/
structure Range.IsIn (range : Range) (text : String) : Prop where
  start_le_stop : range.span.start ≤ range.span.stop
  stop_le : range.span.stop ≤ byteLength text.toList
  starts : IsBoundary text.toList range.span.start
  stops : IsBoundary text.toList range.span.stop
  first : range.first = (LineIndex.ofText text).position range.span.start
  last : range.last = (LineIndex.ofText text).position range.span.stop

namespace Range

variable {range a b : Range} {text : String}

/-- A range of a text from the start of one to the end of another. -/
theorem IsIn.hull (ha : a.IsIn text) (hb : b.IsIn text) (hle : a.span.start ≤ b.span.stop) :
    IsIn ⟨⟨a.span.start, b.span.stop⟩, a.first, b.last⟩ text :=
  ⟨hle, hb.stop_le, ha.starts, hb.stops, ha.first, hb.last⟩

/-- The place where a range starts. -/
theorem IsIn.atStart (h : range.IsIn text) : (empty range.span.start range.first).IsIn text :=
  ⟨Nat.le_refl _, h.starts.le_byteLength, h.starts, h.starts, h.first, h.first⟩

end Range

/-! ## Steps

A step goes over some of the characters that are left, and stamps its token with the place in front
and the place behind. -/

namespace Scanner

variable {index : LineIndex} {s : Scanner} {c : Char} {cs : List Char} {token : Token}

/-- A step passes some characters of what is left. -/
theorem step_passes (index : LineIndex) (s : Scanner) (c : Char) (cs : List Char) :
    ∃ passed, c :: cs = passed ++ (step index s c cs).scanner.rest
      ∧ (step index s c cs).scanner.offset = s.offset + byteLength passed := by
  unfold step
  split
  · exact ⟨[c], rfl, by simp⟩
  · exact ⟨c :: cs.take (Lexeme.scan c cs).2, by simp, rfl⟩

/-- A token is stamped with the positions of its ends. -/
theorem step_range (h : (step index s c cs).token = some token) :
    token.range =
      ⟨⟨s.offset, (step index s c cs).scanner.offset⟩, index.position s.offset,
        index.position (step index s c cs).scanner.offset⟩ := by
  unfold step at h ⊢
  split
  next hseparator =>
    rw [if_pos hseparator] at h
    cases h
  next hseparator =>
    rw [if_neg hseparator] at h
    obtain ⟨⟨kind, value⟩, -, rfl⟩ := Option.map_eq_some_iff.1 h
    rfl

end Scanner

/-! ## All tokens

By induction over the steps, with the characters that were passed so far. -/

namespace TokenList

/-- All that is found from a place in a text stands in the text. -/
theorem isIn_collect {text : String} (s : Scanner) (passed : List Char)
    (htext : text.toList = passed ++ s.rest) (hoffset : byteLength passed = s.offset) :
    ∀ token ∈ (collect (.ofText text) s).all, token.range.IsIn text := by
  -- Along the scanner, with `passed` for what is behind it.
  induction s using collect.induct (.ofText text) generalizing passed with
  | case1 s hrest =>
    have hplace : IsBoundary text.toList s.offset := ⟨passed, s.rest, htext, hoffset⟩
    rw [collect_nil hrest]
    intro token hmem
    obtain rfl := List.mem_singleton.1 (show token ∈ [s.endToken _] from hmem)
    exact ⟨Nat.le_refl _, hplace.le_byteLength, hplace, hplace, rfl, rfl⟩
  | case2 s c cs hrest found ih =>
    obtain ⟨more, hmore, hstop⟩ := Scanner.step_passes (.ofText text) s c cs
    have hnext : text.toList = (passed ++ more) ++ found.scanner.rest := by
      rw [htext, hrest, hmore, List.append_assoc]
    have hlength : byteLength (passed ++ more) = found.scanner.offset := by
      rw [byteLength_append, hoffset, hstop]
    rw [collect_cons hrest, all]
    intro token hmem
    rw [List.append_assoc] at hmem
    rcases List.mem_append.1 hmem with hmem | hmem
    · have hplace : IsBoundary text.toList s.offset := ⟨passed, s.rest, htext, hoffset⟩
      have hend : IsBoundary text.toList found.scanner.offset := ⟨_, _, hnext, hlength⟩
      rw [Scanner.step_range (Option.mem_toList.1 hmem)]
      exact ⟨Nat.le_of_lt (Scanner.offset_lt_offset_step _ s c cs), hend.le_byteLength, hplace,
        hend, rfl, rfl⟩
    · exact ih (passed ++ more) hnext hlength token hmem

/-- **Every token of a text stands in it.** -/
theorem isIn_ofText (text : String) : ∀ token ∈ (ofText text).all, token.range.IsIn text :=
  isIn_collect (.ofText text) [] rfl rfl

end TokenList

end StoryCheck
