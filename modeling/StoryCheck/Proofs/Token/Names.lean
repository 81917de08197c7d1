import StoryCheck.Proofs.Token.Stability

/-!
# Names

What the scanner takes for a name, told without the scanner: letters, digits and underscores that
are no number, no word of the language and no text for an instance.

* **`IsName`** — such characters.
* **`isName_of_scan`** — what is scanned as a name is one.
* **`scan_name`** — a name by itself is a name in front of every stop.
-/

namespace StoryCheck.Lexeme

open Guid

variable {c x : Char} {cs rest text word : List Char}

theorem isDigit_of_isAlpha (h : c.isAlpha = true) : c.isDigit = false := by
  have hstart : 'A' ≤ c ∨ 'a' ≤ c := by
    rcases Bool.or_eq_true_iff.1 h with hupper | hlower
    · have hupper : 'A' ≤ c ∧ c ≤ 'Z' := of_decide_eq_true hupper
      exact .inl hupper.1
    · have hlower : (decide ('a' ≤ c) && decide (c ≤ 'z')) = true := hlower
      exact .inr (of_decide_eq_true (Bool.and_eq_true_iff.1 hlower).1)
  by_contra hdigit
  have hle : c ≤ '9' := by
    simp only [Char.isDigit, Bool.and_eq_true, decide_eq_true_eq, Bool.not_eq_false] at hdigit
    exact hdigit.2
  rcases hstart with hstart | hstart
  · exact absurd (Char.le_trans hstart hle) (by decide)
  · exact absurd (Char.le_trans hstart hle) (by decide)

/-- Only words are names. -/
theorem starts_word (h : (scan c cs).1 = plain .identifier) :
    startsNumber c cs = false ∧ (isLetter c || c == '_') = true := by
  cases hnumber : startsNumber c cs with
  | true =>
    rw [scan_number hnumber] at h
    have hkind := scanNumber_kind (c :: cs)
    rw [show (scanNumber (c :: cs)).1 = plain .identifier from h] at hkind
    exact absurd hkind (by decide)
  | false =>
    refine ⟨rfl, ?_⟩
    by_contra hletter
    exact absurd (scan_sign hnumber (Bool.eq_false_iff.2 hletter) h) (by decide)

/-- A word is a name if it is neither a keyword nor for an instance. -/
theorem scanWord_name (h : (scanWord text).1 = plain .identifier) :
    TokenKind.ofKeyword? (String.ofList (text.takeWhile isWordChar)) = none
      ∧ (scanWord text).2 = (text.takeWhile isWordChar).length := by
  unfold scanWord at h ⊢
  dsimp only at h ⊢
  split at h
  next kind hkeyword =>
    cases h
    exact absurd (TokenKind.mem_keywords hkeyword) (by decide)
  next hkeyword =>
    split at h
    next => cases h
    next hguid =>
      refine ⟨hkeyword, ?_⟩
      rw [if_neg hguid]

/-- A name: letters, digits and underscores, no digit first, and no keyword. -/
structure IsName (word : List Char) : Prop where
  starts : ∃ c ∈ word.head?, (isLetter c || c == '_') = true
  letters : ∀ c ∈ word, isWordChar c = true
  free : TokenKind.ofKeyword? (String.ofList word) = none

theorem IsName.exists_cons (h : IsName word) : ∃ c cs, word = c :: cs ∧ isSeparator c = false := by
  obtain ⟨c, hc, hletter⟩ := h.starts
  cases word with
  | nil => cases hc
  | cons d cs =>
    obtain rfl := Option.some.inj hc
    refine ⟨d, cs, rfl, ?_⟩
    by_contra hseparator
    have hstop := isStop_of_separator (by simpa using hseparator)
    rw [isStop_iff, isWordChar_of_start hletter] at hstop
    cases hstop.1

/-- What is scanned as a name is one. -/
theorem isName_of_scan (h : scan c (text ++ rest) = (plain .identifier, text.length)) :
    IsName (c :: text) := by
  obtain ⟨hnumber, hletter⟩ := starts_word (congrArg Prod.fst h)
  rw [scan_word hnumber hletter] at h
  obtain ⟨hkind, hlength⟩ := Prod.mk.inj h
  obtain ⟨hkeyword, hword⟩ := scanWord_name hkind
  have hpos : 0 < (scanWord (c :: (text ++ rest))).2 := scanWord_pos (isWordChar_of_start hletter)
  have hall : (c :: text ++ rest).takeWhile isWordChar = c :: text := by
    rw [List.prefix_iff_eq_take.1 ( List.takeWhile_prefix isWordChar), List.cons_append, ← hword,
      show (scanWord (c :: (text ++ rest))).2 = (c :: text).length by rw [List.length_cons]; omega]
    exact List.take_left
  rw [← List.cons_append, hall] at hkeyword
  exact ⟨⟨c, rfl, hletter⟩, fun d hd => List.all_eq_true.1 List.all_takeWhile d (hall.symm ▸ hd),
    hkeyword⟩

/-- **A name is scanned as one in front of every stop.** -/
theorem scan_name (h : IsName (c :: cs)) (hx : isStop x = true) (back : List Char) :
    scan c (cs ++ x :: back) = (plain .identifier, cs.length) := by
  obtain ⟨d, hd, hletter⟩ := h.starts
  obtain rfl := Option.some.inj hd
  have hc := isWordChar_of_start hletter
  have hdigit : c.isDigit = false := by
    have hapart : c.isAlpha = true ∨ c = '_' := by simpa [isLetter] using hletter
    rcases hapart with halpha | rfl
    · exact isDigit_of_isAlpha halpha
    · rfl
  have hwhole : (c :: (cs ++ x :: back)).takeWhile isWordChar = c :: cs := by
    rw [← List.cons_append, takeWhile_stop (isStop_iff.1 hx).1]
    exact List.takeWhile_eq_self_iff.2 h.letters
  have hhead : ((c :: cs).take ((c :: cs).length - 8)).length ≤ (c :: cs).length :=
    (List.take_prefix _ _).length_le
  have hscan : scanWord (c :: (cs ++ x :: back)) = (plain .identifier, cs.length + 1) := by
    unfold scanWord
    simp only [hwhole, h.free]
    -- Digits of an instance would go on behind the stop.
    rw [← List.cons_append, List.drop_append_of_le_length hhead,
      startsText_word (fun d hd => h.letters d (List.mem_of_mem_drop hd)) hx]
    simp
  rw [scan_word (startsNumber_of_isWordChar hc hdigit) hletter, hscan]
  rfl

end StoryCheck.Lexeme
