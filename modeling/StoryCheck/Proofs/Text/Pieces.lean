import StoryCheck.Proofs.Token.Places

/-!
# Pieces of a text

Characters that stand together in a text, told by their offset, and putting others in their place.

* **`StandsAt`** — some characters that stand at an offset of a text.
* **`Patch`** — characters to be put in place of a span.
-/

namespace StoryCheck

/-! ## Parts of a text

Parts are told by offsets in bytes. Between two places that are not within a character there always
is a part. -/

/-- Some characters that stand at an offset of a text. -/
def StandsAt (text : List Char) (offset : Nat) (part : List Char) : Prop :=
  ∃ front back, text = front ++ (part ++ back) ∧ byteLength front = offset

namespace StandsAt

variable {text before part after : List Char} {start stop offset : Nat}

theorem le_byteLength (h : StandsAt text offset part) :
    offset + byteLength part ≤ byteLength text := by
  obtain ⟨front, back, rfl, rfl⟩ := h
  simp only [byteLength_append]
  omega

/-- The start of a part stands where the part does. -/
theorem of_start (h : StandsAt text offset part) (hstarts : before <+: part) :
    StandsAt text offset before := by
  obtain ⟨after, rfl⟩ := hstarts
  obtain ⟨front, back, rfl, rfl⟩ := h
  exact ⟨front, after ++ back, by rw [List.append_assoc], rfl⟩

/-- The rest of a part stands behind its start. -/
theorem behind (h : StandsAt text offset (before ++ part)) :
    StandsAt text (offset + byteLength before) part := by
  obtain ⟨front, back, rfl, rfl⟩ := h
  exact ⟨front ++ before, back, by simp only [List.append_assoc], byteLength_append _ _⟩

/-- Between two boundaries some characters stand. -/
theorem of_boundaries (hstart : IsBoundary text start) (hstop : IsBoundary text stop)
    (hle : start ≤ stop) : ∃ part, StandsAt text start part ∧ stop = start + byteLength part := by
  obtain ⟨front, back, rfl, rfl⟩ := hstart
  obtain ⟨others, rest, hparts, rfl⟩ := hstop
  rcases List.append_eq_append_iff.1 hparts with ⟨part, rfl, rfl⟩ | ⟨part, rfl, rfl⟩
  · exact ⟨part, ⟨front, rest, rfl, rfl⟩, byteLength_append _ _⟩
  · -- Then the part that `front` has beyond `others` has no bytes.
    rw [byteLength_append] at hle ⊢
    exact ⟨[], ⟨_, _, rfl, byteLength_append _ _⟩, by rw [byteLength_nil]; omega⟩

end StandsAt

theorem dropBytes_append (front back : List Char) :
    dropBytes (byteLength front) (front ++ back) = back := by
  induction front with
  | nil => rw [byteLength_nil, List.nil_append, dropBytes]
  | cons c front ih =>
    obtain ⟨n, hn⟩ := Nat.exists_eq_succ_of_ne_zero (Nat.ne_of_gt (Char.utf8Size_pos c))
    rw [byteLength_cons, hn, Nat.succ_add, List.cons_append, dropBytes, hn]
    rwa [show n + byteLength front + 1 - n.succ = byteLength front by omega]

theorem takeBytes_append (part back : List Char) :
    takeBytes (byteLength part) (part ++ back) = part := by
  induction part with
  | nil => rw [byteLength_nil, takeBytes]
  | cons c part ih =>
    obtain ⟨n, hn⟩ := Nat.exists_eq_succ_of_ne_zero (Nat.ne_of_gt (Char.utf8Size_pos c))
    rw [byteLength_cons, hn, Nat.succ_add, List.cons_append, takeBytes, hn]
    rw [show n + byteLength part + 1 - n.succ = byteLength part by omega, ih]

/-- The slice of a text over some characters of it is these characters. -/
theorem StandsAt.slice_eq {text part : List Char} {offset : Nat} (h : StandsAt text offset part) :
    slice offset (offset + byteLength part) text = part := by
  obtain ⟨front, back, rfl, rfl⟩ := h
  rw [slice, dropBytes_append, Nat.add_sub_cancel_left, takeBytes_append]

/-- What stands behind a part makes it longer. -/
theorem StandsAt.append {text part more : List Char} {offset : Nat} (h : StandsAt text offset part)
    (hmore : StandsAt text (offset + byteLength part) more) : StandsAt text offset (part ++ more) := by
  obtain ⟨front, back, rfl, rfl⟩ := h
  obtain ⟨passed, rest, htext, hpassed⟩ := hmore
  rw [← byteLength_append] at hpassed
  -- What is left behind the part starts with the other one.
  have hback := dropBytes_append (front ++ part) back
  rw [List.append_assoc, htext, ← hpassed, dropBytes_append] at hback
  exact ⟨front, rest, by rw [← hback, List.append_assoc], rfl⟩

/-! ## Patches

Several patches are put in from the last to the first, as each of them moves only what stands behind
it. -/

/-- Characters to be put in place of a span. -/
structure Patch where
  span : Span
  chars : List Char
deriving DecidableEq, Repr

namespace Patch

/-- A text with the characters put in. -/
def apply (patch : Patch) (text : List Char) : List Char :=
  takeBytes patch.span.start text ++ (patch.chars ++ dropBytes patch.span.stop text)

/-- A text with several patches, the last one put in first, so that none moves another. -/
def applyAll (patches : List Patch) (text : List Char) : List Char := patches.foldr apply text

/-- A patch takes the place of what stands in its span. -/
theorem apply_append (front part chars back : List Char) :
    apply ⟨⟨byteLength front, byteLength front + byteLength part⟩, chars⟩ (front ++ (part ++ back))
      = front ++ (chars ++ back) := by
  rw [apply, takeBytes_append, ← List.append_assoc front part back, ← byteLength_append,
    dropBytes_append]

end Patch

end StoryCheck
