import StoryCheck.Proofs.Token.Lexing
import Mathlib.Data.List.TakeWhile

/-!
# Tokens that name instances

An instance is named in two places: by a token of its own, and by a string that is handed over for
one. What a token may be as a whole is what such a string may be. The other way round one spelling
is missing: behind a name that starts with a digit the text falls apart into a number and a token.

* **`Guid.IsWritten`** — the written form: five groups of digits, parted by hyphens.
* **`Guid.Leads`** — what may stand in front of the digits.
* **`Guid.isGuidString_iff`** — the strings for instances are a lead with a written form behind it.
* **`Lexeme.scan_guid`** — so are the lexemes for instances.
* **`Lexeme.scan_lead`** — and such a text is scanned as one lexeme unless it starts like a number.
* **`guid_tokens_are_guid_strings`** — what follows for the tokens of a text.
-/

namespace StoryCheck

/-! ## The written form

The reader goes through the groups one by one; here they are put together. The form has one length,
so that in a string it is looked for at the end only. -/

namespace Guid

/-- Some hexadecimal digits. -/
def IsGroup (n : Nat) (group : List Char) : Prop :=
  group.length = n ∧ ∀ c ∈ group, isHexDigit c = true

/-- Five groups of digits with hyphens between them. -/
inductive IsWritten : List Char → Prop
  | intro {a b c d e : List Char} (first : IsGroup 8 a) (second : IsGroup 4 b)
    (third : IsGroup 4 c) (fourth : IsGroup 4 d) (last : IsGroup 12 e) :
    IsWritten (a ++ '-' :: (b ++ '-' :: (c ++ '-' :: (d ++ '-' :: e))))

/-- What may stand in front of the digits: nothing, or a name and an underscore. -/
def Leads (lead : List Char) : Prop :=
  (∀ c ∈ lead, isWordChar c = true) ∧ (lead = [] ∨ lead.getLast? = some '_')

variable {cs rest digits lead : List Char} {n : Nat}

theorem IsWritten.length_eq (h : IsWritten digits) : digits.length = Guid.length := by
  cases h with
  | intro first second third fourth last =>
    simp only [List.length_append, List.length_cons, first.1, second.1, third.1, fourth.1, last.1]
    rfl

/-- A written form starts with eight digits and a hyphen. -/
theorem IsWritten.exists_group (h : IsWritten digits) :
    ∃ group more, IsGroup 8 group ∧ digits = group ++ '-' :: more := by
  cases h with
  | intro first => exact ⟨_, _, first, rfl⟩

theorem afterDigits_eq_some_iff :
    afterDigits n cs = some rest ↔ ∃ group, IsGroup n group ∧ cs = group ++ rest := by
  -- Digit by digit; a group of `n + 1` digits is one digit and a group of `n`.
  fun_induction afterDigits n cs with
  | case1 cs =>
    constructor
    · intro h
      exact ⟨[], ⟨rfl, nofun⟩, Option.some.inj h⟩
    · rintro ⟨group, hgroup, rfl⟩
      rw [List.length_eq_zero_iff.1 hgroup.1]
      rfl
  | case2 n =>
    refine iff_of_false nofun ?_
    rintro ⟨_ | ⟨d, group⟩, hgroup, hcs⟩
    · cases hgroup.1
    · cases hcs
  | case3 n c cs hhex ih =>
    rw [ih]
    constructor
    · rintro ⟨group, hgroup, rfl⟩
      exact ⟨c :: group, ⟨congrArg (· + 1) hgroup.1, List.forall_mem_cons.2 ⟨hhex, hgroup.2⟩⟩, rfl⟩
    · rintro ⟨_ | ⟨d, group⟩, hgroup, hcs⟩
      · cases hgroup.1
      · obtain ⟨rfl, rfl⟩ := List.cons.inj hcs
        exact ⟨group, ⟨Nat.succ.inj hgroup.1, (List.forall_mem_cons.1 hgroup.2).2⟩, rfl⟩
  | case4 n c cs hhex =>
    refine iff_of_false nofun ?_
    rintro ⟨_ | ⟨d, group⟩, hgroup, hcs⟩
    · cases hgroup.1
    · obtain ⟨rfl, rfl⟩ := List.cons.inj hcs
      exact hhex (List.forall_mem_cons.1 hgroup.2).1

theorem afterHyphen_eq_some_iff : afterHyphen cs = some rest ↔ cs = '-' :: rest := by
  unfold afterHyphen
  split <;> simp_all

/-- **Reading finds the written forms** at the start of a text, and nothing else. -/
theorem rest?_eq_some_iff :
    rest? cs = some rest ↔ ∃ digits, IsWritten digits ∧ cs = digits ++ rest := by
  simp only [rest?, Option.bind_eq_bind, Option.bind_eq_some_iff, afterDigits_eq_some_iff,
    afterHyphen_eq_some_iff]
  constructor
  · rintro ⟨_, ⟨a, ha, rfl⟩, _, rfl, _, ⟨b, hb, rfl⟩, _, rfl, _, ⟨c, hc, rfl⟩, _, rfl, _,
      ⟨d, hd, rfl⟩, _, rfl, e, he, rfl⟩
    exact ⟨_, .intro ha hb hc hd he, by simp⟩
  · rintro ⟨_, hwritten, rfl⟩
    cases hwritten with
    | @intro a b c d e ha hb hc hd he =>
      exact ⟨_, ⟨a, ha, by simp⟩, _, rfl, _, ⟨b, hb, rfl⟩, _, rfl, _, ⟨c, hc, rfl⟩, _, rfl, _,
        ⟨d, hd, rfl⟩, _, rfl, e, he, rfl⟩

/-- Reading leaves nothing of a written form. -/
theorem rest?_eq_nil_iff : rest? cs = some [] ↔ IsWritten cs := by
  rw [rest?_eq_some_iff]
  constructor
  · rintro ⟨digits, hwritten, rfl⟩
    rwa [List.append_nil]
  · exact fun hwritten => ⟨cs, hwritten, (List.append_nil cs).symm⟩

/-- A text starts with a written form that does not run on. -/
theorem startsText_iff :
    startsText cs = true
      ↔ ∃ digits rest, IsWritten digits ∧ cs = digits ++ rest
        ∧ ∀ c ∈ rest.head?, isWordChar c = false ∧ c ≠ '-' := by
  constructor
  · intro h
    unfold startsText at h
    split at h
    next c rest hrest =>
      obtain ⟨digits, hwritten, hcs⟩ := rest?_eq_some_iff.1 hrest
      refine ⟨digits, _, hwritten, hcs, fun d hd => ?_⟩
      obtain rfl := Option.some.inj hd
      simpa using h
    next hrest =>
      obtain ⟨digits, hwritten, hcs⟩ := rest?_eq_some_iff.1 hrest
      exact ⟨digits, _, hwritten, hcs, nofun⟩
    next => cases h
  · rintro ⟨digits, rest, hwritten, hcs, hstops⟩
    have hrest : rest? cs = some rest := rest?_eq_some_iff.2 ⟨digits, hwritten, hcs⟩
    cases rest with
    | nil => rw [startsText, hrest]
    | cons c rest =>
      obtain ⟨hword, hhyphen⟩ := hstops c rfl
      simp [startsText, hrest, hword, hhyphen]

/-- **A string stands for an instance** if it is a written form with a lead. -/
theorem isGuidString_iff :
    isGuidString cs = true ↔ ∃ lead digits, Leads lead ∧ IsWritten digits ∧ cs = lead ++ digits := by
  constructor
  · intro h
    obtain ⟨_, hsplit⟩ := Option.isSome_iff_exists.1 h
    -- The digits have a fixed length, so that the string can be cut in front of them only.
    suffices hboth : Leads (cs.take (cs.length - Guid.length))
        ∧ IsWritten (cs.drop (cs.length - Guid.length)) from
      ⟨_, _, hboth.1, hboth.2, (List.take_append_drop _ _).symm⟩
    unfold split? at hsplit
    dsimp only at hsplit
    split at hsplit
    next hdigits =>
      refine ⟨?_, rest?_eq_nil_iff.1 hdigits⟩
      split at hsplit
      next hempty =>
        rw [List.isEmpty_iff.1 hempty]
        exact ⟨nofun, .inl rfl⟩
      next =>
        split at hsplit
        next hname =>
          obtain ⟨hword, hend⟩ := Bool.and_eq_true_iff.1 hname
          exact ⟨List.all_eq_true.1 hword, .inr (by simpa using hend)⟩
        next => cases hsplit
    next => cases hsplit
  · rintro ⟨lead, digits, ⟨hword, hend⟩, hwritten, rfl⟩
    have hlead : (lead ++ digits).length - Guid.length = lead.length := by
      rw [List.length_append, hwritten.length_eq, Nat.add_sub_cancel]
    have hdigits : rest? digits = some [] := rest?_eq_nil_iff.2 hwritten
    unfold isGuidString split?
    rw [hlead, List.take_left, List.drop_left]
    rcases hend with rfl | hend
    · simp [hdigits]
    · have hall : lead.all isWordChar = true := List.all_eq_true.2 hword
      have hsome : lead.isEmpty = false := by cases lead <;> simp_all
      simp [hdigits, hall, hend, hsome]

end Guid

/-! ## Lexemes

Both scanners that may find an instance ask for the written form, one at the start of a number and
one at the end of a word. -/

namespace Lexeme

open Guid

variable {c : Char} {cs text word lead digits : List Char} {n : Nat}

/-- No keyword ends with eight hexadecimal digits. -/
theorem ofKeyword?_of_isGroup {group : List Char} (hgroup : IsGroup 8 group) :
    TokenKind.ofKeyword? (String.ofList (lead ++ group)) = none := by
  have hends (keyword : String) (hkeyword : String.ofList (lead ++ group) = keyword) :
      8 ≤ keyword.toList.length
        ∧ (keyword.toList.drop (keyword.toList.length - 8)).all isHexDigit = true := by
    rw [← hkeyword, String.toList_ofList, List.length_append, hgroup.1, Nat.add_sub_cancel,
      List.drop_left]
    exact ⟨Nat.le_add_left _ _, List.all_eq_true.2 hgroup.2⟩
  unfold TokenKind.ofKeyword?
  split
  all_goals first | rfl | exact absurd (hends _ ‹_›) (by decide)

/-- A number for an instance is a written form. -/
theorem scanNumber_guid (h : (scanNumber text).1 = plain .guid) :
    (scanNumber text).2 = Guid.length ∧ startsText text = true := by
  unfold scanNumber at *
  grind

/-- A word for an instance is a lead with a written form behind it. -/
theorem scanWord_guid (h : (scanWord text).1 = plain .guid) :
    ∃ lead, Leads lead ∧ lead <+: text ∧ (scanWord text).2 = lead.length + Guid.length
      ∧ startsText (text.drop lead.length) = true := by
  let word := text.takeWhile isWordChar
  let head := word.take (word.length - 8)
  have hhead : head <+: word := List.take_prefix _ _
  have hword : ∀ c ∈ head, isWordChar c = true := fun c hc =>
    List.all_eq_true.1 List.all_takeWhile c (hhead.subset hc)
  unfold scanWord at h ⊢
  dsimp only at h ⊢
  split at h
  next kind hkeyword =>
    cases h
    exact absurd (TokenKind.mem_keywords hkeyword) (by decide)
  next =>
    split at h
    next hguid =>
      obtain ⟨⟨-, hend⟩, hstarts⟩ : (_ ∧ (head.isEmpty || head.getLast? == some '_') = true)
          ∧ startsText (text.drop head.length) = true := by
        simpa only [Bool.and_eq_true] using hguid
      refine ⟨head, ⟨hword, ?_⟩, hhead.trans (List.takeWhile_prefix _), ?_, hstarts⟩
      · simpa using hend
      · rw [if_pos hguid]
    next => cases h

/-- What is taken for an instance is the lead with the written form. -/
theorem isGuidString_take (hlead : Leads lead) (hfront : lead <+: text)
    (hstarts : startsText (text.drop lead.length) = true) :
    isGuidString (text.take (lead.length + Guid.length)) = true := by
  obtain ⟨more, rfl⟩ := hfront
  rw [List.drop_left] at hstarts
  obtain ⟨digits, rest, hwritten, rfl, -⟩ := startsText_iff.1 hstarts
  rw [List.take_length_add_append, List.take_left' hwritten.length_eq]
  exact isGuidString_iff.2 ⟨lead, digits, hlead, hwritten, rfl⟩

/-- **A lexeme for an instance spells one.** -/
theorem scan_guid (h : (scan c cs).1 = plain .guid) :
    isGuidString (c :: cs.take (scan c cs).2) = true := by
  have htake {n : Nat} (hpos : 0 < n) : c :: cs.take (n - 1) = (c :: cs).take n := by
    obtain ⟨n, rfl⟩ := Nat.exists_eq_add_one.2 hpos
    rfl
  have hpos : 0 < Guid.length := by decide
  cases hnumber : startsNumber c cs with
  | true =>
    rw [scan_number hnumber] at h ⊢
    obtain ⟨hlength, hstarts⟩ := scanNumber_guid h
    have hlead : Leads [] := ⟨nofun, .inl rfl⟩
    have htaken := isGuidString_take hlead List.nil_prefix
      (by rwa [List.length_nil, List.drop_zero])
    rw [htake (by omega), hlength]
    rwa [List.length_nil, Nat.zero_add] at htaken
  | false =>
    cases hword : isLetter c || c == '_' with
    | true =>
      rw [scan_word hnumber hword] at h ⊢
      obtain ⟨lead, hlead, hfront, hlength, hstarts⟩ := scanWord_guid h
      rw [htake (by omega), hlength]
      exact isGuidString_take hlead hfront hstarts
    | false => exact absurd (scan_sign hnumber hword h) (by decide)

/-! ### Whole texts

In a text for an instance letters, digits and underscores go up to the first hyphen: the lead and
eight digits. They are one word, unless they start with a digit. -/

theorem isWordChar_of_isHexDigit (h : isHexDigit c = true) : isWordChar c = true := by
  have hlower (ha : 'a' ≤ c) (hf : c ≤ 'f') : c.isLower = true := by
    have hz : c ≤ 'z' := Char.le_trans hf (by decide)
    show (decide ('a' ≤ c) && decide (c ≤ 'z')) = true
    rw [decide_eq_true ha, decide_eq_true hz, Bool.and_self]
  have hupper (hA : 'A' ≤ c) (hF : c ≤ 'F') : c.isUpper = true := by
    have hZ : c ≤ 'Z' := Char.le_trans hF (by decide)
    exact decide_eq_true ⟨hA, hZ⟩
  simp only [isHexDigit, Bool.or_eq_true, Bool.and_eq_true, decide_eq_true_eq] at h
  show ((c.isUpper || c.isLower) || c.isDigit || c == '_') = true
  rcases h with (hdigit | ⟨ha, hf⟩) | ⟨hA, hF⟩
  · simp [hdigit]
  · simp [hlower ha hf]
  · simp [hupper hA hF]

theorem takeWhile_word {p : Char → Bool} (hhyphen : p '-' = false) (more : List Char) :
    (word ++ '-' :: more).takeWhile p = word.takeWhile p := by
  rw [List.takeWhile_append, List.takeWhile_cons_of_neg (by simp [hhyphen]), List.append_nil]
  split
  next hall => exact (List.takeWhile_prefix p).eq_of_length hall |>.symm
  next => rfl

/-- The word of a text for an instance. -/
theorem exists_word (hlead : Leads lead) (hwritten : IsWritten digits) :
    ∃ group more, IsGroup 8 group ∧ lead ++ digits = lead ++ group ++ '-' :: more
      ∧ ∀ c ∈ lead ++ group, isWordChar c = true := by
  obtain ⟨group, more, hgroup, rfl⟩ := hwritten.exists_group
  refine ⟨group, more, hgroup, (List.append_assoc _ _ _).symm, fun c hc => ?_⟩
  rcases List.mem_append.1 hc with hc | hc
  · exact hlead.1 c hc
  · exact isWordChar_of_isHexDigit (hgroup.2 c hc)

/-- A word that starts with a digit is scanned as a number. It is taken for an instance only if
the digits of one start here. -/
theorem scanNumber_word {more : List Char} (hword : ∀ c ∈ word, isWordChar c = true)
    (htext : word ++ '-' :: more = c :: cs) (hdigit : c.isDigit = true) :
    scanNumber (c :: cs)
      = if (word.takeWhile Char.isDigit).length ≤ 8 ∧ startsText (c :: cs) = true then
          (plain .guid, Guid.length)
        else (plain .integer, (word.takeWhile Char.isDigit).length) := by
  have hsigned : c ≠ '-' := by
    rintro rfl
    exact absurd hdigit (by decide)
  have hwhole : span Char.isDigit (c :: cs) = (word.takeWhile Char.isDigit).length := by
    rw [span, ← htext, takeWhile_word (by decide)]
  -- The digits are followed by what is left of the word, or else by the hyphen: never by a point.
  have hpoint (fraction : List Char) :
      (c :: cs).drop (word.takeWhile Char.isDigit).length ≠ '.' :: fraction := by
    rw [← htext, List.drop_append_of_le_length (List.takeWhile_prefix _).length_le]
    intro hdrop
    cases hleft : word.drop (word.takeWhile Char.isDigit).length with
    | nil => simp [hleft] at hdrop
    | cons d left =>
      obtain rfl : d = '.' := by
        rw [hleft] at hdrop
        exact (List.cons.inj hdrop).1
      have hmem : '.' ∈ word := List.mem_of_mem_drop (hleft ▸ List.mem_cons_self)
      exact absurd (hword _ hmem) (by decide)
  unfold scanNumber
  simp only [List.head?_cons, Option.some_beq_some, beq_eq_false_iff_ne.2 hsigned, if_false,
    Bool.false_eq_true, hwhole]
  grind

/-- A text for an instance starts with a character of its word. -/
theorem isWordChar_of_lead (hlead : Leads lead) (hwritten : IsWritten digits)
    (htext : lead ++ digits = c :: cs) : isWordChar c = true := by
  obtain ⟨group, more, hgroup, hsplit, hword⟩ := exists_word hlead hwritten
  rw [hsplit] at htext
  cases hempty : lead ++ group with
  | nil =>
    have hlength := congrArg List.length hempty
    rw [List.length_append, hgroup.1] at hlength
    cases hlength
  | cons d word =>
    rw [hempty] at htext hword
    obtain rfl := (List.cons.inj htext).1
    exact hword _ List.mem_cons_self

theorem isLetter_of_isWordChar (h : isWordChar c = true) (hdigit : c.isDigit = false) :
    (isLetter c || c == '_') = true := by
  simpa [isLetter, isWordChar, Char.isAlphanum, hdigit] using h

theorem startsNumber_of_isWordChar (h : isWordChar c = true) (hdigit : c.isDigit = false) :
    startsNumber c cs = false := by
  have hsigned : c ≠ '-' := by
    rintro rfl
    exact absurd h (by decide)
  simp [startsNumber, hdigit, hsigned]

/-- A text for an instance that does not start with a digit is one word with its digits. -/
theorem scanWord_lead (hlead : Leads lead) (hwritten : IsWritten digits) :
    scanWord (lead ++ digits) = (plain .guid, (lead ++ digits).length) := by
  obtain ⟨group, more, hgroup, htext, hword⟩ := exists_word hlead hwritten
  have hstarts : startsText digits = true :=
    startsText_iff.2 ⟨digits, [], hwritten, (List.append_nil _).symm, nofun⟩
  have htake : (lead ++ digits).takeWhile isWordChar = lead ++ group := by
    rw [htext, takeWhile_word (by decide)]
    exact List.takeWhile_eq_self_iff.2 hword
  have hlength : (lead ++ group).length - 8 = lead.length := by
    rw [List.length_append, hgroup.1, Nat.add_sub_cancel]
  have height : 8 ≤ (lead ++ group).length := by
    rw [List.length_append, hgroup.1]
    exact Nat.le_add_left _ _
  have hend : (lead.isEmpty || lead.getLast? == some '_') = true := by
    rcases hlead.2 with rfl | hend
    · rfl
    · simp [hend]
  unfold scanWord
  simp only [htake, ofKeyword?_of_isGroup hgroup, hlength, List.take_left, List.drop_left, hstarts,
    hend, height, decide_true, Bool.and_self, if_true]
  rw [List.length_append, hwritten.length_eq]

/-- **A text for an instance is one lexeme** unless a name that starts with a digit leads it. -/
theorem scan_lead (hlead : Leads lead) (hwritten : IsWritten digits)
    (htext : lead ++ digits = c :: cs) (hstart : c.isDigit = true → lead = []) :
    scan c cs = (plain .guid, cs.length) := by
  obtain ⟨group, more, hgroup, hsplit, hword⟩ := exists_word hlead hwritten
  have hlength : (lead ++ digits).length - 1 = cs.length := by rw [htext]; rfl
  cases hdigit : c.isDigit with
  | true =>
    obtain rfl := hstart hdigit
    have hstarts : startsText (c :: cs) = true :=
      startsText_iff.2 ⟨digits, [], hwritten, by rw [← htext, List.append_nil]; rfl, nofun⟩
    have hshort : (group.takeWhile Char.isDigit).length ≤ 8 :=
      hgroup.1 ▸ (List.takeWhile_prefix _).length_le
    rw [scan_number (by simp [startsNumber, hdigit]),
      scanNumber_word hword (hsplit.symm.trans htext) hdigit, if_pos ⟨hshort, hstarts⟩, ← hlength,
      List.nil_append, hwritten.length_eq]
  | false =>
    have hc : isWordChar c = true := isWordChar_of_lead hlead hwritten htext
    rw [scan_word (startsNumber_of_isWordChar hc hdigit) (isLetter_of_isWordChar hc hdigit),
      ← htext, scanWord_lead hlead hwritten, hlength]

/-- Behind a name that starts with a digit the text falls apart: its first lexeme is a number. -/
theorem scan_digit (hlead : Leads lead) (hwritten : IsWritten digits)
    (htext : lead ++ digits = c :: cs) (hdigit : c.isDigit = true) (hname : lead ≠ []) :
    (scan c cs).1 = plain .integer := by
  obtain ⟨group, more, hgroup, hsplit, hword⟩ := exists_word hlead hwritten
  -- Of a written form the ninth character is a hyphen; here it is one of the word.
  have hstarts : ¬ startsText (c :: cs) = true := by
    intro hstarts
    obtain ⟨form, rest, hform, hcs, -⟩ := startsText_iff.1 hstarts
    obtain ⟨other, after, hother, rfl⟩ := hform.exists_group
    have hlong : 8 < (lead ++ group).length := by
      have hpos := List.length_pos_iff.2 hname
      rw [List.length_append, hgroup.1]
      omega
    have htexts : lead ++ group ++ '-' :: more = other ++ '-' :: (after ++ rest) := by
      rw [← hsplit, htext, hcs, List.append_assoc, List.cons_append]
    have hword8 : (lead ++ group ++ '-' :: more)[8]? = some (lead ++ group)[8] := by
      rw [List.getElem?_append_left hlong, List.getElem?_eq_getElem hlong]
    have hform8 : (lead ++ group ++ '-' :: more)[8]? = some '-' := by
      rw [htexts, List.getElem?_append_right hother.1.le, hother.1]
      rfl
    have hninth : (lead ++ group)[8] = '-' := Option.some.inj (hword8.symm.trans hform8)
    exact absurd (hword _ (List.getElem_mem hlong)) (by rw [hninth]; decide)
  rw [scan_number (by simp [startsNumber, hdigit]),
    scanNumber_word hword (hsplit.symm.trans htext) hdigit, if_neg fun h => hstarts h.2]

end Lexeme

/-! ## Tokens

The text of a token is what its lexeme took, and what stands in front of it is left to other tokens. -/

namespace Scanner

variable {index : LineIndex} {s : Scanner} {c : Char} {cs text value : List Char}
  {lexeme : Lexeme} {kind : TokenKind} {token : Token}

theorem token?_guid (h : token? lexeme text = some (.guid, value)) :
    lexeme = .plain .guid ∧ value = text := by
  unfold token? at h
  split at h <;> simp_all

/-- A step that finds a token for an instance has passed the text of one. -/
theorem step_guid (h : (step index s c cs).token = some token) (hguid : token.kind = .guid) :
    Guid.isGuidString token.value.toList = true := by
  unfold step at h
  split at h
  next => cases h
  next =>
    obtain ⟨⟨kind, value⟩, htoken, rfl⟩ := Option.map_eq_some_iff.1 h
    obtain rfl : kind = .guid := hguid
    obtain ⟨hlexeme, rfl⟩ := token?_guid htoken
    simpa only [stamp, String.toList_ofList] using Lexeme.scan_guid hlexeme

/-- A step over a lexeme that is a token. -/
theorem step_plain {more : Nat} (index : LineIndex) (s : Scanner) (hword : Guid.isWordChar c = true)
    (hscan : Lexeme.scan c cs = (.plain kind, more)) :
    (∃ token, (step index s c cs).token = some token ∧ token.kind = kind
      ∧ token.value = String.ofList (c :: cs.take more))
      ∧ (step index s c cs).scanner.rest = cs.drop more := by
  have hseparator : ¬ Lexeme.isSeparator c = true := by
    intro hseparator
    simp only [Lexeme.isSeparator, Bool.or_eq_true, beq_iff_eq] at hseparator
    rcases hseparator with (((rfl | rfl) | rfl) | rfl) | rfl <;> exact absurd hword (by decide)
  unfold step
  rw [if_neg hseparator, hscan]
  exact ⟨⟨_, rfl, rfl, rfl⟩, rfl⟩

end Scanner

namespace TokenList

variable {text : String} {c : Char} {cs : List Char} {kind : TokenKind}

/-- What the tokens are and what they spell. -/
def spelling (list : TokenList) : List (TokenKind × String) :=
  list.all.map fun token => (token.kind, token.value)

/-- Every token for an instance spells one. -/
theorem guid_collect (index : LineIndex) (s : Scanner) :
    ∀ token ∈ (collect index s).tokens, token.kind = .guid →
      Guid.isGuidString token.value.toList = true := by
  induction s using collect.induct index with
  | case1 s hrest =>
    rw [collect_nil hrest]
    exact List.forall_mem_nil _
  | case2 s c cs hrest found ih =>
    rw [collect_cons hrest]
    intro token hmem
    rcases List.mem_append.1 hmem with hmem | hmem
    · exact Scanner.step_guid (Option.mem_toList.1 hmem)
    · exact ih token hmem

/-- The first token is the lexeme that the text starts with, and the only one if nothing follows. -/
theorem spelling_ofText {more : Nat} (htext : text.toList = c :: cs)
    (hword : Guid.isWordChar c = true) (hscan : Lexeme.scan c cs = (.plain kind, more)) :
    (ofText text).spelling.head? = some (kind, String.ofList (c :: cs.take more))
      ∧ (more = cs.length → (ofText text).spelling = [(kind, text), (.endOfFile, "")]) := by
  have hrest : (Scanner.ofText text).rest = c :: cs := htext
  obtain ⟨⟨token, htoken, rfl, hvalue⟩, hdrop⟩ :=
    Scanner.step_plain (.ofText text) (.ofText text) hword hscan
  rw [ofText, collect_cons hrest, htoken]
  refine ⟨by simp [spelling, all, hvalue], ?_⟩
  rintro rfl
  rw [List.drop_length] at hdrop
  have hall : String.ofList (c :: cs) = text := by rw [← htext, String.ofList_toList]
  rw [List.take_length, hall] at hvalue
  rw [collect_nil hdrop]
  simp [spelling, all, hvalue, Scanner.endToken, Scanner.stamp]

end TokenList

/-- **Tokens and strings for instances.** A token for an instance spells what a string for one may
be. Such a text is one token, with nothing but the end of the text behind it, exactly if it is bare
digits or does not start with a digit. -/
theorem guid_tokens_are_guid_strings (text : String) :
    (∀ token ∈ (TokenList.ofText text).all, token.kind = .guid →
        Guid.isGuidString token.value.toList = true)
      ∧ (Guid.isGuidString text.toList = true →
        ((TokenList.ofText text).spelling = [(.guid, text), (.endOfFile, "")]
          ↔ (text.toList.head?.any Char.isDigit = true → text.toList.length = Guid.length))) := by
  constructor
  · intro token hmem hguid
    rcases List.mem_append.1 hmem with hmem | hmem
    · exact TokenList.guid_collect _ _ token hmem hguid
    · obtain rfl := List.mem_singleton.1 hmem
      rw [(TokenList.kind_ofText text).2] at hguid
      cases hguid
  · intro hguid
    obtain ⟨lead, digits, hlead, hwritten, htext⟩ := Guid.isGuidString_iff.1 hguid
    have hbare : text.toList.length = Guid.length ↔ lead = [] := by
      rw [htext, List.length_append, hwritten.length_eq, Nat.add_eq_right, List.length_eq_zero_iff]
    -- What has the length of the digits alone is them alone.
    rw [hbare]
    obtain ⟨c, cs, hcs⟩ : ∃ c cs, text.toList = c :: cs := by
      refine List.exists_cons_of_length_pos ?_
      rw [htext, List.length_append, hwritten.length_eq]
      exact Nat.add_pos_right _ (by decide)
    have hstart : text.toList.head?.any Char.isDigit = c.isDigit := by rw [hcs]; rfl
    rw [hstart]
    replace htext : lead ++ digits = c :: cs := htext.symm.trans hcs
    have hword := Lexeme.isWordChar_of_lead hlead hwritten htext
    constructor
    · intro hspelling hdigit
      by_contra hname
      have hinteger := Lexeme.scan_digit hlead hwritten htext hdigit hname
      have hfirst := (TokenList.spelling_ofText hcs hword (Prod.ext hinteger rfl)).1
      rw [hspelling] at hfirst
      cases hfirst
    · intro hbare
      have hscan := Lexeme.scan_lead hlead hwritten htext hbare
      exact (TokenList.spelling_ofText hcs hword hscan).2 rfl

/-- A named instance is one token. -/
theorem sword_is_one_token :
    (TokenList.ofText "Sword_1c3c9c74-34a1-4685-989e-410dc080be6f").spelling
        = [(.guid, "Sword_1c3c9c74-34a1-4685-989e-410dc080be6f"), (.endOfFile, "")]
      ∧ ∃ token ∈ (TokenList.ofText "Sword_1c3c9c74-34a1-4685-989e-410dc080be6f").all,
        token.kind = .guid ∧ Guid.isGuidString token.value.toList = true := by
  have hguid : Guid.isGuidString "Sword_1c3c9c74-34a1-4685-989e-410dc080be6f".toList = true := by
    decide +kernel
  obtain ⟨token, hmem, hkind⟩ :
      ∃ token ∈ (TokenList.ofText "Sword_1c3c9c74-34a1-4685-989e-410dc080be6f").all,
        token.kind = .guid := by decide +kernel
  obtain ⟨htokens, hwhole⟩ :=
    guid_tokens_are_guid_strings "Sword_1c3c9c74-34a1-4685-989e-410dc080be6f"
  exact ⟨(hwhole hguid).2 (by decide +kernel), token, hmem, hkind, htokens token hmem hkind⟩

/-- A name that starts with a digit does not stay with its instance. -/
theorem numbered_name_falls_apart :
    Guid.isGuidString "1_1c3c9c74-34a1-4685-989e-410dc080be6f".toList = true
      ∧ (TokenList.ofText "1_1c3c9c74-34a1-4685-989e-410dc080be6f").spelling
        = [(.integer, "1"), (.guid, "_1c3c9c74-34a1-4685-989e-410dc080be6f"), (.endOfFile, "")] := by
  decide +kernel

end StoryCheck
