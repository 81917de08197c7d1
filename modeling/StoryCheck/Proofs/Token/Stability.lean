import StoryCheck.Proofs.Token.Guids
import StoryCheck.Proofs.Token.Tiling

/-!
# What a lexeme owes to what stands behind it

A lexeme is the longest reading at its place, so what stands behind it has a say in where it ends.
How far the scanner looks for that is told by a *stop*: a character that no word and no number goes
on with. A lexeme does not depend on what is behind the next stop, and one that ends by itself does
not depend on anything behind it.

* **`Agree`** — texts that are alike up to a stop and with it.
* **`scan_agree`** — a lexeme stays what it is if what follows it stays alike up to a stop.
* **`scan_closed`** — so it does without a stop where a word follows it directly, unless it is a
  number, a comparison or no token at all (`openKinds`).
-/

namespace StoryCheck.Lexeme

open Guid

variable {c x : Char} {cs front back back' rest rest' text word : List Char} {p : Char → Bool}
  {n : Nat} {lexeme : Lexeme}

/-! ## Stops

Letters, digits, the underscore and the hyphen go on with a word, a number or a GUID. All other
characters are stops: whatever is being read, it does not go on over one of them unless it is a
string or a comment. -/

/-- A character that ends every word and every number: part of no name, and no hyphen. -/
def isStop (c : Char) : Bool := !(isWordChar c || c == '-')

/-- A stop is no character of a word and no hyphen. -/
theorem isStop_iff : isStop x = true ↔ isWordChar x = false ∧ x ≠ '-' := by
  simp [isStop]

/-- White space is a stop. -/
theorem isStop_of_separator (h : isSeparator c = true) : isStop c = true := by
  rw [isSeparator_iff] at h
  simp only [List.mem_cons, List.not_mem_nil, or_false] at h
  rcases h with rfl | rfl | rfl | rfl | rfl <;> decide

/-- A stop is no digit. -/
theorem isDigit_of_stop (hx : isStop x = true) : x.isDigit = false := by
  have hword := (isStop_iff.1 hx).1
  simp only [isWordChar, Char.isAlphanum, Bool.or_eq_false_iff] at hword
  exact hword.1.2

/-- A stop is no letter. -/
theorem isLetter_of_stop (hx : isStop x = true) : isLetter x = false := by
  have hword := (isStop_iff.1 hx).1
  simp only [isWordChar, Char.isAlphanum, Bool.or_eq_false_iff] at hword
  exact hword.1.1

/-- What a word may start with is a character of words. -/
theorem isWordChar_of_start (h : (isLetter c || c == '_') = true) : isWordChar c = true := by
  rcases Bool.or_eq_true_iff.1 h with h | h
  · simp [isWordChar, Char.isAlphanum, show c.isAlpha = true from h]
  · simp [isWordChar, h]

/-- Where a stop follows, the next character does not depend on what is behind the stop. -/
theorem head?_stop (front back back' : List Char) (x : Char) :
    (front ++ x :: back).head? = (front ++ x :: back').head? := by
  cases front <;> rfl

/-- A run of characters does not go beyond one that fails the test. -/
theorem takeWhile_stop (hx : p x = false) (front back : List Char) :
    (front ++ x :: back).takeWhile p = front.takeWhile p := by
  rw [List.takeWhile_append, List.takeWhile_cons_of_neg (by simp [hx]), List.append_nil]
  split
  next hall => exact ((List.takeWhile_prefix p).eq_of_length hall).symm
  next => rfl

/-- How far a predicate holds does not depend on what is behind a character of which it fails. -/
theorem span_stop (hx : p x = false) (front back : List Char) :
    span p (front ++ x :: back) = span p front := by
  rw [span, span, takeWhile_stop hx]

/-- The stretch on which a predicate holds lies within the text. -/
theorem span_le (p : Char → Bool) (cs : List Char) : span p cs ≤ cs.length :=
  (List.takeWhile_prefix p).length_le

/-- A run that ends within some characters ends there whatever follows. -/
theorem span_append_of_le {more : List Char} (h : span p (front ++ x :: back) ≤ front.length) :
    span p (front ++ x :: more) = span p (front ++ x :: back) := by
  cases hx : p x with
  | false => rw [span_stop hx, span_stop hx]
  | true =>
    have hfront : ¬ ∀ c ∈ front, p c = true := by
      intro hall
      rw [span, List.takeWhile_append_of_pos hall, List.length_append,
        List.takeWhile_cons_of_pos hx, List.length_cons] at h
      omega
    have hshort (more : List Char) : span p (front ++ more) = span p front := by
      rw [span, span, List.takeWhile_append]
      split
      next hall =>
        refine absurd (fun c hc => ?_) hfront
        rw [← (List.takeWhile_prefix p).eq_of_length hall] at hc
        exact List.all_eq_true.1 List.all_takeWhile c hc
      next => rfl
    rw [hshort, hshort]

/-- A text in front can be cut within, and put together again with other characters behind. -/
theorem take_eq_of_le {more : List Char} (hn : n ≤ front.length) :
    front ++ more = (front ++ back).take n ++ (front.drop n ++ more) := by
  rw [List.take_append_of_le_length hn, ← List.append_assoc, List.take_append_drop]

/-! ## Comments and strings

The ends of comments and strings are looked for, not counted off. They lie within the text, and what
is behind an end that was found has no part in finding it. -/

/-- The end of a comment is within the text. -/
theorem commentEnd?_le (h : commentEnd? cs = some n) : n ≤ cs.length := by
  -- The search goes character by character, and by two at the end.
  fun_induction commentEnd? cs generalizing n with
  | case1 => cases h
  | case2 cs =>
    obtain rfl := Option.some.inj h
    simp
  | case3 c cs hopen ih =>
    obtain ⟨m, hm, rfl⟩ := Option.map_eq_some_iff.1 h
    exact Nat.succ_le_succ (ih hm)

/-- So is the end of a string. -/
theorem stringEnd?_le {broken b : Bool} (h : stringEnd? broken cs = some (n, b)) :
    n ≤ cs.length := by
  fun_induction stringEnd? broken cs generalizing n with
  | case1 => cases h
  | case2 broken cs =>
    obtain ⟨rfl, -⟩ := Prod.mk.inj (Option.some.inj h)
    simp
  | case3 => cases h
  | case4 broken c cs ih =>
    obtain ⟨⟨m, b'⟩, hm, heq⟩ := Option.map_eq_some_iff.1 h
    obtain ⟨rfl, rfl⟩ := Prod.mk.inj heq
    exact Nat.add_le_add_right (ih hm) 2
  | case5 broken c cs hquote hend hslash ih =>
    obtain ⟨⟨m, b'⟩, hm, heq⟩ := Option.map_eq_some_iff.1 h
    obtain ⟨rfl, rfl⟩ := Prod.mk.inj heq
    exact Nat.succ_le_succ (ih hm)

/-- A comment that is closed has at least the characters that close it. -/
theorem commentEnd?_pos (h : commentEnd? cs = some n) : 0 < n := by
  obtain ⟨body, htake, -⟩ := commentEnd?_eq_some h
  rcases Nat.eq_zero_or_pos n with rfl | hn
  · simp at htake
  · exact hn

/-- The end of a comment is found again if everything behind it is replaced. -/
theorem commentEnd?_take (h : commentEnd? cs = some n) (back : List Char) :
    commentEnd? (cs.take n ++ back) = some n := by
  fun_induction commentEnd? cs generalizing n with
  | case1 => cases h
  | case2 cs =>
    obtain rfl := Option.some.inj h
    rfl
  | case3 c cs hopen ih =>
    obtain ⟨m, hm, rfl⟩ := Option.map_eq_some_iff.1 h
    have hpos := commentEnd?_pos hm
    rw [List.take_succ_cons, List.cons_append, commentEnd?, ih hm]
    · rfl
    · rintro rest rfl hrest
      cases cs with
      | nil => cases hm
      | cons d cs =>
        obtain ⟨m, rfl⟩ := Nat.exists_eq_add_one.2 hpos
        rw [List.take_succ_cons, List.cons_append] at hrest
        obtain ⟨rfl, -⟩ := List.cons.inj hrest
        exact hopen cs rfl rfl

/-- The same about the end of a string, with what it says about line breaks inside. -/
theorem stringEnd?_take {broken b : Bool} (h : stringEnd? broken cs = some (n, b)) (back : List Char) :
    stringEnd? broken (cs.take n ++ back) = some (n, b) := by
  fun_induction stringEnd? broken cs generalizing n with
  | case1 => cases h
  | case2 broken cs =>
    obtain ⟨rfl, rfl⟩ := Prod.mk.inj (Option.some.inj h)
    rfl
  | case3 => cases h
  | case4 broken c cs ih =>
    obtain ⟨⟨m, b'⟩, hm, heq⟩ := Option.map_eq_some_iff.1 h
    obtain ⟨rfl, rfl⟩ := Prod.mk.inj heq
    simp [stringEnd?, ih hm]
  | case5 broken c cs hquote hend hslash ih =>
    obtain ⟨⟨m, b'⟩, hm, heq⟩ := Option.map_eq_some_iff.1 h
    obtain ⟨rfl, rfl⟩ := Prod.mk.inj heq
    have hplain : c ≠ '\\' := by
      rintro rfl
      cases cs with
      | nil => exact hend rfl rfl
      | cons d cs => exact hslash d cs rfl rfl
    rw [List.take_succ_cons, List.cons_append, stringEnd?_plain hquote hplain, ih hm]
    rfl

/-! ## Written forms

A GUID has hyphens in it, so that it can go on beyond a word; but it has no stop in it. Whether a
text starts with a GUID is decided in front of the first stop. -/

/-- No character of a GUID is a stop. -/
theorem isStop_of_mem_isWritten {digits : List Char} (h : IsWritten digits) (hc : c ∈ digits) :
    isStop c = false := by
  cases h with
  | intro ha hb hc' hd he =>
    have hgroup {n : Nat} {group : List Char} (h : IsGroup n group) (hc : c ∈ group) :
        isStop c = false := by
      simp [isStop, isWordChar_of_isHexDigit (h.2 c hc)]
    simp only [List.mem_append, List.mem_cons] at hc
    rcases hc with hc | rfl | hc | rfl | hc | rfl | hc | rfl | hc
    all_goals first | exact hgroup ‹_› hc | decide

/-- A text that starts with a GUID starts with it whatever is put behind a stop. -/
theorem startsText_of_stop (hx : isStop x = true) (h : startsText (front ++ x :: back) = true)
    (back' : List Char) : startsText (front ++ x :: back') = true := by
  obtain ⟨digits, rest, hwritten, htext, hends⟩ := startsText_iff.1 h
  refine startsText_iff.2 ?_
  rcases List.append_eq_append_iff.1 htext with ⟨_ | ⟨d, more⟩, rfl, hrest⟩ | ⟨more, rfl, hrest⟩
  · refine ⟨front, x :: back', by simpa using hwritten, rfl, fun d hd => ?_⟩
    obtain rfl := Option.some.inj hd
    exact isStop_iff.1 hx
  · -- The stop would be in the form.
    obtain ⟨rfl, -⟩ := List.cons.inj hrest
    -- The stop cannot be one of the characters of the GUID, so the GUID is in front of it.
    have hform := isStop_of_mem_isWritten hwritten (List.mem_append_right front List.mem_cons_self)
    rw [hx] at hform
    cases hform
  · refine ⟨digits, more ++ x :: back', hwritten, by simp, ?_⟩
    rw [head?_stop more back' back]
    rwa [hrest] at hends

/-- Whether it does is therefore settled in front of the stop. -/
theorem startsText_stop (hx : isStop x = true) (front back back' : List Char) :
    startsText (front ++ x :: back) = startsText (front ++ x :: back') :=
  Bool.eq_iff_iff.2 ⟨fun h => startsText_of_stop hx h back', fun h => startsText_of_stop hx h back⟩

/-- A word in front of a stop is too short for a written form, which has hyphens in it. -/
theorem startsText_word (hword : ∀ c ∈ word, isWordChar c = true) (hx : isStop x = true)
    (back : List Char) : startsText (word ++ x :: back) = false := by
  refine Bool.eq_false_iff.2 fun h => ?_
  obtain ⟨digits, rest, hwritten, htext, -⟩ := startsText_iff.1 h
  obtain ⟨group, more, -, rfl⟩ := hwritten.exists_group
  have hhyphen : '-' ∈ word ∨ x ∈ group ++ '-' :: more := by
    rcases List.append_eq_append_iff.1 htext with ⟨_ | ⟨d, tail⟩, hform, hrest⟩ | ⟨tail, hword, -⟩
    · exact .inl (by rw [List.append_nil] at hform; simp [← hform])
    · obtain ⟨rfl, -⟩ := List.cons.inj hrest
      exact .inr (by simp [hform])
    · exact .inl (by simp [hword])
  rcases hhyphen with hhyphen | hstop
  · cases hword _ hhyphen
  · rw [isStop_of_mem_isWritten hwritten hstop] at hx
    cases hx

/-- A text that starts with a GUID is at least as long as one. -/
theorem length_of_startsText (h : startsText text = true) : Guid.length ≤ text.length := by
  obtain ⟨digits, rest, hwritten, rfl, -⟩ := startsText_iff.1 h
  rw [List.length_append, hwritten.length_eq]
  exact Nat.le_add_right _ _

/-- A GUID is not followed by a character of words. -/
theorem isWordChar_behind_guid (h : startsText text = true) :
    ∀ w ∈ (text.drop Guid.length).head?, isWordChar w = false := by
  obtain ⟨digits, rest, hwritten, rfl, hends⟩ := startsText_iff.1 h
  rw [List.drop_left' hwritten.length_eq]
  exact fun w hw => (hends w hw).1

/-! ## Numbers and words

A number may have a sign, a point and further digits, and it may turn out to be the beginning of a
GUID. All of this is looked at in front of a stop. -/

/-- The scanner of numbers, written out for a text with a first character. -/
theorem scanNumber_cons (d : Char) (cs : List Char) :
    scanNumber (d :: cs) =
      let sign := if d == '-' then 1 else 0
      let body := if d == '-' then cs else d :: cs
      let whole := span Char.isDigit body
      match body.drop whole with
      | '.' :: fraction =>
        let places := span Char.isDigit fraction
        (if places = 0 then openReal else plain .real, sign + whole + 1 + places)
      | _ =>
        if !(d == '-') && whole ≤ 8 && startsText (d :: cs) then (plain .guid, Guid.length)
        else (plain .integer, sign + whole) := by
  unfold scanNumber
  simp only [List.head?_cons, Option.some_beq_some, List.drop_succ_cons, List.drop_zero]
  rfl

/-- A number that ends in front of a stop is read as the same number whatever is behind the stop. -/
theorem scanNumber_stop {d : Char} (hx : isStop x = true)
    (hn : (scanNumber (d :: (front ++ x :: back))).2 ≤ front.length + 1) :
    scanNumber (d :: (front ++ x :: back')) = scanNumber (d :: (front ++ x :: back)) := by
  have hdigit := isDigit_of_stop hx
  have hstarts : startsText (d :: (front ++ x :: back')) = startsText (d :: (front ++ x :: back)) :=
    startsText_stop hx (d :: front) back' back
  have hbody (back : List Char) : (if d == '-' then front ++ x :: back else d :: (front ++ x :: back))
      = (if d == '-' then front else d :: front) ++ x :: back := by
    split <;> rfl
  rw [scanNumber_cons] at hn
  rw [scanNumber_cons, scanNumber_cons, hstarts]
  simp only [hbody] at hn ⊢
  have hlength : (if d == '-' then front else d :: front).length + (if d == '-' then 1 else 0)
      = front.length + 1 := by
    split <;> simp
  -- The sign plays no part in what follows.
  generalize (if d == '-' then front else d :: front) = body at *
  generalize (if d == '-' then 1 else 0) = sign at *
  simp only [span_stop hdigit, List.drop_append_of_le_length (span_le _ _)] at hn ⊢
  -- What stands behind the digits is the stop, or something in front of it.
  cases hdrop : body.drop (span Char.isDigit body) with
  | nil =>
    have hall : body.length ≤ span Char.isDigit body := List.drop_eq_nil_iff.1 hdrop
    -- With a point behind the digits the number would go on beyond the stop.
    have hpoint : x ≠ '.' := by
      rintro rfl
      simp only [hdrop, List.nil_append] at hn
      omega
    simp [hpoint]
  | cons e tail =>
    by_cases hpoint : e = '.'
    · subst hpoint
      simp only [List.cons_append, span_stop hdigit]
    · simp [hpoint]

/-- A number lies within the text. -/
theorem scanNumber_le (d : Char) (cs : List Char) : (scanNumber (d :: cs)).2 ≤ (d :: cs).length := by
  rw [scanNumber_cons]
  have hlength : (if d == '-' then 1 else 0) + (if d == '-' then cs else d :: cs).length
      = (d :: cs).length := by
    split <;> simp [Nat.add_comm]
  generalize (if d == '-' then cs else d :: cs) = body at *
  generalize (if d == '-' then 1 else 0) = sign at *
  have hwhole := span_le Char.isDigit body
  dsimp only
  split
  next fraction hpoint =>
    have hplaces := span_le Char.isDigit fraction
    have hdrop := congrArg List.length hpoint
    simp only [List.length_drop, List.length_cons] at hdrop
    simp only
    omega
  next =>
    split
    next hguid =>
      have hstarts : startsText (d :: cs) = true := (Bool.and_eq_true_iff.1 hguid).2
      exact length_of_startsText hstarts
    next => simp only; omega

/-- A word is read as the same word whatever is behind a stop. -/
theorem scanWord_stop (hx : isStop x = true) (front back back' : List Char) :
    scanWord (front ++ x :: back') = scanWord (front ++ x :: back) := by
  have hword : isWordChar x = false := (isStop_iff.1 hx).1
  unfold scanWord
  simp only [takeWhile_stop hword]
  generalize hhead :
    List.take ((front.takeWhile isWordChar).length - 8) (front.takeWhile isWordChar) = head
  have hle : head.length ≤ front.length := by
    rw [← hhead]
    exact Nat.le_trans (List.take_prefix _ _).length_le (span_le _ _)
  simp only [List.drop_append_of_le_length hle, startsText_stop hx _ back' back]

/-- A word lies within the text. -/
theorem scanWord_le (text : List Char) : (scanWord text).2 ≤ text.length := by
  by_cases hguid : (scanWord text).1 = plain .guid
  · obtain ⟨lead, -, ⟨more, rfl⟩, hlength, hstarts⟩ := scanWord_guid hguid
    rw [List.drop_left] at hstarts
    rw [hlength, List.length_append]
    exact Nat.add_le_add_left (length_of_startsText hstarts) _
  · have hword := span_le isWordChar text
    unfold scanWord at hguid ⊢
    dsimp only at hguid ⊢
    split
    · exact hword
    next hkeyword =>
      rw [hkeyword] at hguid
      dsimp only at hguid
      split at hguid
      · exact absurd rfl hguid
      next hif =>
        rw [if_neg hif]
        exact hword

/-- A word has at least one character. -/
theorem scanWord_pos (hc : isWordChar c = true) : 0 < (scanWord (c :: cs)).2 := by
  unfold scanWord
  dsimp only
  split
  · simp [hc]
  · split
    · exact Nat.lt_of_lt_of_le (by decide) (Nat.le_add_left Guid.length _)
    · simp [hc]

/-- No word starts where a word has ended. -/
theorem isWordChar_behind_word (text : List Char) :
    ∀ w ∈ (text.drop (scanWord text).2).head?, isWordChar w = false := by
  have hrun : ∀ w ∈ (text.drop (text.takeWhile isWordChar).length).head?, isWordChar w = false := by
    intro w hw
    have hfail := List.head?_dropWhile_not isWordChar text
    rw [show text.drop (text.takeWhile isWordChar).length = _ from drop_span isWordChar text] at hw
    rw [Option.mem_def.1 hw] at hfail
    simpa using hfail
  -- A GUID at the end of a word is asked for what stands behind it; every other word is a whole run
  -- of word characters.
  by_cases hguid : (scanWord text).1 = plain .guid
  · obtain ⟨lead, -, -, hlength, hstarts⟩ := scanWord_guid hguid
    rw [hlength, ← List.drop_drop]
    exact isWordChar_behind_guid hstarts
  · unfold scanWord at hguid ⊢
    dsimp only at hguid ⊢
    split
    · exact hrun
    next hkeyword =>
      rw [hkeyword] at hguid
      dsimp only at hguid
      split at hguid
      · exact absurd rfl hguid
      next hif =>
        rw [if_neg hif]
        exact hrun

/-! ## Signs

Signs of one or two characters, markers in brackets, comments and strings. For comments and strings
there is one more way to go wrong: one that is not closed ends with the text, and what is put behind
it would belong to it. -/

/-- A flow marker is read in front of a stop. -/
theorem scanMarker_stop (hx : isStop x = true) (front back back' : List Char) :
    scanMarker (front ++ x :: back') = scanMarker (front ++ x :: back) := by
  have hletter := isLetter_of_stop hx
  unfold scanMarker
  simp only [span_stop hletter, List.drop_append_of_le_length (span_le _ _)]
  cases front.drop (span isLetter front) with
  | nil => by_cases hx : x = ']' <;> simp [hx]
  | cons e tail => by_cases he : e = ']' <;> simp [he]

/-- For a sign the scanner looks at one character more. -/
theorem scanSign_stop (alone joined : TokenKind) :
    scanSign alone joined (front ++ x :: back') = scanSign alone joined (front ++ x :: back) := by
  rw [scanSign, scanSign, head?_stop]

/-- Two slashes start a comment that goes to the end of the line. -/
theorem scan_line (cs : List Char) :
    scan '/' ('/' :: cs) = (lineComment, span (fun c => !isLineBreak c) ('/' :: cs)) := rfl

/-- A slash and a star start one that goes to the next star and slash. -/
theorem scan_block (cs : List Char) :
    scan '/' ('*' :: cs) =
      match commentEnd? cs with
      | some n => (blockComment true, 1 + n)
      | none => (blockComment false, cs.length + 1) := rfl

/-- A comment to the end of the line stops at the line break. -/
theorem scan_line_stops {line : List Char} {d : Char} (inside : ∀ c ∈ line, isLineBreak c = false)
    (hbreak : isLineBreak d = true) (rest : List Char) :
    scan '/' ('/' :: line ++ d :: rest) = (lineComment, ('/' :: line).length) := by
  have hall : ('/' :: line).takeWhile (fun c => !isLineBreak c) = '/' :: line :=
    List.takeWhile_eq_self_iff.2 (List.forall_mem_cons.2 ⟨rfl, fun c hc => by simp [inside c hc]⟩)
  rw [List.cons_append, scan_line, ← List.cons_append, span_stop (by simp [hbreak]), span, hall]

/-- A comment whose end is the end of its body is closed there, whatever follows. -/
theorem scan_block_closes {body : List Char} (h : commentEnd? body = some body.length)
    (rest : List Char) :
    scan '/' ('*' :: body ++ rest) = (blockComment true, ('*' :: body).length) := by
  have hend : commentEnd? (body ++ rest) = some body.length := by
    rw [← commentEnd?_take h rest, List.take_length]
  rw [List.cons_append, scan_block, hend]
  exact congrArg (Prod.mk _) (Nat.add_comm 1 body.length)

/-- A slash opens nothing by itself. -/
theorem scan_slash (hline : c ≠ '/') (hblock : c ≠ '*') (cs : List Char) :
    scan '/' (c :: cs) = (plain .invalid, 0) := by
  simp [scan, isLetter, hline, hblock]

/-- What starts with a slash does not depend on what is behind a stop, unless it is an open comment. -/
theorem scan_slash_stop (hn : (scan '/' (front ++ x :: back)).2 ≤ front.length)
    (hopen : (scan '/' (front ++ x :: back)).1 ≠ blockComment false) :
    scan '/' (front ++ x :: back') = scan '/' (front ++ x :: back) := by
  -- The character behind the slash decides; it may be the stop itself.
  cases front with
  | nil =>
    simp only [List.nil_append, List.length_nil, Nat.le_zero] at hn hopen ⊢
    by_cases hline : x = '/'
    · subst hline
      cases hn
    by_cases hblock : x = '*'
    · subst hblock
      rw [scan_block] at hn
      split at hn
      · dsimp only at hn
        omega
      · cases hn
    · rw [scan_slash hline hblock, scan_slash hline hblock]
  | cons d front =>
    simp only [List.cons_append] at hn hopen ⊢
    by_cases hline : d = '/'
    · subst hline
      have hn : span (fun c => !isLineBreak c) ('/' :: front ++ x :: back) ≤ ('/' :: front).length := hn
      exact congrArg (Prod.mk lineComment) (span_append_of_le hn)
    by_cases hblock : d = '*'
    · subst hblock
      rw [scan_block] at hn hopen
      rw [scan_block, scan_block]
      cases hend : commentEnd? (front ++ x :: back) with
      | none => simp [hend] at hopen
      | some n =>
        simp only [hend, List.length_cons] at hn
        rw [take_eq_of_le (show n ≤ front.length by omega), commentEnd?_take hend]
    · rw [scan_slash hline hblock, scan_slash hline hblock]

/-- Nor does what starts with a quotation mark, unless it is an open string. -/
theorem scanString_stop (hn : (scanString (front ++ x :: back)).2 ≤ front.length)
    (hopen : (scanString (front ++ x :: back)).1 ≠ quoted .unclosed) :
    scanString (front ++ x :: back') = scanString (front ++ x :: back) := by
  unfold scanString at hn hopen ⊢
  cases hend : stringEnd? false (front ++ x :: back) with
  | none => simp [hend] at hopen
  | some found =>
    obtain ⟨n, broken⟩ := found
    simp only [hend] at hn
    rw [take_eq_of_le hn, stringEnd?_take hend]

/-! ## Lexemes

All scanners together. A lexeme that is whole, that is, not damaged, is settled by the text up to
the next stop. -/

/-- What is scanned lies within the text. -/
theorem scan_le (c : Char) (cs : List Char) : (scan c cs).2 ≤ cs.length := by
  have hsign (alone joined : TokenKind) : (scanSign alone joined cs).2 ≤ cs.length := by
    -- Each scanner has its own bound.
    unfold scanSign
    cases cs with
    | nil => simp
    | cons d cs => split <;> simp
  unfold scan
  split
  · exact Nat.sub_le_of_le_add (scanNumber_le c cs)
  split
  · exact Nat.sub_le_of_le_add (scanWord_le (c :: cs))
  split
  · split
    · exact span_le _ _
    · split
      next hend => simp only [List.length_cons]; have := commentEnd?_le hend; omega
      next => exact Nat.le_refl _
    · exact Nat.zero_le _
  · unfold scanString
    split
    next hend => exact stringEnd?_le hend
    next => exact span_le _ _
  · unfold scanMarker
    dsimp only
    split
    next hback =>
      have hdrop := congrArg List.length hback
      simp only [List.length_drop, List.length_cons] at hdrop
      simp only
      omega
    next => exact span_le _ _
  · exact hsign _ _
  · exact hsign _ _
  · exact hsign _ _
  · exact hsign _ _
  all_goals exact Nat.zero_le _

/-- **A lexeme in front of a stop** does not depend on what is behind the stop. -/
theorem scan_stop (hx : isStop x = true) (hn : (scan c (front ++ x :: back)).2 ≤ front.length)
    (hcomment : (scan c (front ++ x :: back)).1 ≠ blockComment false)
    (hquoted : (scan c (front ++ x :: back)).1 ≠ quoted .unclosed) :
    scan c (front ++ x :: back') = scan c (front ++ x :: back) := by
  -- Comments are treated on their own, for they run over stops.
  by_cases hslash : c = '/'
  · subst hslash
    exact scan_slash_stop hn hcomment
  unfold scan at hn hquoted ⊢
  rw [head?_stop front back' back]
  split
  next hnumber =>
    rw [if_pos hnumber] at hn
    rw [scanNumber_stop hx (Nat.le_add_of_sub_le hn)]
  next hnumber =>
  rw [if_neg hnumber] at hn hquoted
  split
  next hword =>
    rw [← List.cons_append, ← List.cons_append, scanWord_stop hx (c :: front) back back']
  next hword =>
  rw [if_neg hword] at hn hquoted
  split
  · exact absurd rfl hslash
  · exact scanString_stop hn hquoted
  · exact scanMarker_stop hx front back back'
  · exact scanSign_stop ..
  · exact scanSign_stop ..
  · exact scanSign_stop ..
  · exact scanSign_stop ..
  all_goals rfl

/-- Texts that are alike up to a stop and with it, or all along. -/
inductive Agree : List Char → List Char → Prop
  | refl (text : List Char) : Agree text text
  | stop {x : Char} (hx : isStop x = true) (front back back' : List Char) :
    Agree (front ++ x :: back) (front ++ x :: back')

/-- Texts that agree do so with the same piece in front of them. -/
theorem Agree.prepend (piece : List Char) (h : Agree rest rest') :
    Agree (piece ++ rest) (piece ++ rest') := by
  cases h with
  | refl => exact .refl _
  | stop hx front back back' =>
    rw [← List.append_assoc, ← List.append_assoc]
    exact .stop hx (piece ++ front) back back'

/-- Lexemes that deserve a diagnostic. -/
def damaged : List Lexeme := [blockComment false, quoted .broken, quoted .unclosed, openReal]

/-- A lexeme nobody complains about is not damaged. -/
theorem not_mem_damaged {span : Span} (h : Scanner.complaint lexeme span = []) :
    lexeme ∉ damaged := by
  simp only [damaged, List.mem_cons, List.not_mem_nil, or_false, not_or]
  refine ⟨?_, ?_, ?_, ?_⟩ <;> rintro rfl <;> cases h

/-- Nobody complains about a lexeme that is not damaged. -/
theorem complaint_of_whole (h : lexeme ∉ damaged) (span : Span) :
    Scanner.complaint lexeme span = [] := by
  unfold Scanner.complaint
  split
  all_goals first | rfl | exact absurd (by decide) h

/-- A whole lexeme stays what it is if what follows stays alike up to a stop. -/
theorem scan_agree (hscan : scan c cs = (lexeme, n)) (hwhole : lexeme ∉ damaged)
    (h : Agree (cs.drop n) rest') : scan c (cs.take n ++ rest') = (lexeme, n) := by
  generalize hrest : cs.drop n = rest at h
  have hcs : cs = cs.take n ++ rest := by rw [← hrest, List.take_append_drop]
  cases h with
  | refl => rw [← hcs, hscan]
  | @stop x hx front back back' =>
    have hn : n ≤ (cs.take n ++ front).length := by
      rcases Nat.lt_or_ge cs.length n with hlt | hge
      · rw [List.drop_eq_nil_of_le (Nat.le_of_lt hlt)] at hrest
        simp at hrest
      · rw [List.length_append, List.length_take_of_le hge]
        exact Nat.le_add_right _ _
    rw [← List.append_assoc] at hcs ⊢
    rw [hcs] at hscan
    generalize cs.take n ++ front = front at *
    rw [← hscan]
    refine scan_stop hx (by rwa [hscan]) ?_ ?_
    all_goals
      rw [hscan]
      rintro rfl
      exact hwhole (by decide)

/-! ## Lexemes that end by themselves

Where no stop follows, a lexeme may be stable all the same: a closed bracket is one whatever comes
next. The kinds that are excluded are those that a character more can turn into something else. -/

/-- Tokens that run on if more of their characters follow: numbers and comparisons, and what is no
token by itself. So do words, but behind a word no other word starts. -/
def openKinds : KindSet := [.integer, .real, .less, .greater, .invalid]

/-- The first character of a lexeme is counted apart from the others. -/
theorem drop_pred {m : Nat} (hm : 0 < m) (c : Char) (cs : List Char) :
    cs.drop (m - 1) = (c :: cs).drop m := by
  obtain ⟨m, rfl⟩ := Nat.exists_eq_add_one.2 hm
  rfl

/-- A string ends with its quotation mark and asks for nothing behind it. -/
theorem scanString_closed (hscan : scanString cs = (lexeme, n))
    (hwhole : lexeme ∉ damaged) (rest' : List Char) :
    scanString (cs.take n ++ rest') = (lexeme, n) := by
  unfold scanString at hscan ⊢
  cases hend : stringEnd? false cs with
  | none =>
    rw [hend] at hscan
    obtain ⟨rfl, -⟩ := Prod.mk.inj hscan
    exact absurd (by decide) hwhole
  | some found =>
    obtain ⟨m, broken⟩ := found
    rw [hend] at hscan
    obtain ⟨rfl, rfl⟩ := Prod.mk.inj hscan
    rw [stringEnd?_take hend]

/-- A marker ends with its bracket. -/
theorem scanMarker_closed (hscan : scanMarker cs = (lexeme, n))
    (hends : lexeme ≠ plain .invalid) (rest' : List Char) :
    scanMarker (cs.take n ++ rest') = (lexeme, n) := by
  have hscan' := hscan
  unfold scanMarker at hscan
  dsimp only at hscan
  split at hscan
  next back hback =>
    obtain ⟨rfl, rfl⟩ := Prod.mk.inj hscan
    have hcs : cs = cs.takeWhile isLetter ++ ']' :: back := by
      rw [← hback, drop_span, List.takeWhile_append_dropWhile]
    have htake : cs.take (span isLetter cs + 1) = cs.takeWhile isLetter ++ [']'] := by
      calc cs.take (span isLetter cs + 1)
          = (cs.takeWhile isLetter ++ ']' :: back).take (span isLetter cs + 1) := by rw [← hcs]
        _ = cs.takeWhile isLetter ++ [']'] := List.take_length_add_append 1
    rw [htake, List.append_assoc, List.singleton_append, scanMarker_stop (by decide) _ back, ← hcs,
      hscan']
  next =>
    obtain ⟨rfl, rfl⟩ := Prod.mk.inj hscan
    exact absurd rfl hends

/-- A sign of two characters ends with the second. -/
theorem scanSign_closed {alone joined : TokenKind}
    (hscan : scanSign alone joined cs = (lexeme, n)) (hends : lexeme ≠ plain alone)
    (rest' : List Char) : scanSign alone joined (cs.take n ++ rest') = (lexeme, n) := by
  unfold scanSign at hscan
  split at hscan
  next hjoined =>
    obtain ⟨rfl, rfl⟩ := Prod.mk.inj hscan
    cases cs with
    | nil => cases hjoined
    | cons d cs => exact if_pos hjoined
  next =>
    obtain ⟨rfl, rfl⟩ := Prod.mk.inj hscan
    exact absurd rfl hends

/-- A comment ends with the characters that close it. A comment to the end of the line does not
count, for it cannot be followed by a word. -/
theorem scan_slash_closed (hscan : scan '/' cs = (lexeme, n))
    (hwhole : lexeme ∉ damaged) (hends : lexeme ≠ plain .invalid)
    (hnext : ∃ w ∈ (cs.drop n).head?, isWordChar w = true) (rest' : List Char) :
    scan '/' (cs.take n ++ rest') = (lexeme, n) := by
  cases cs with
  | nil =>
    obtain ⟨rfl, -⟩ := Prod.mk.inj (show (plain .invalid, 0) = (lexeme, n) from hscan)
    exact absurd rfl hends
  | cons d cs =>
    by_cases hline : d = '/'
    · -- A line comment is followed by a line break.
      subst hline
      rw [scan_line] at hscan
      obtain ⟨-, rfl⟩ := Prod.mk.inj hscan
      obtain ⟨w, hw, hword⟩ := hnext
      rw [drop_span] at hw
      have hbreak := inside_line.2 w hw
      simp only [List.mem_cons, List.not_mem_nil, or_false] at hbreak
      rcases hbreak with rfl | rfl <;> cases hword
    by_cases hblock : d = '*'
    · subst hblock
      rw [scan_block] at hscan
      cases hend : commentEnd? cs with
      | none =>
        rw [hend] at hscan
        obtain ⟨rfl, -⟩ := Prod.mk.inj hscan
        exact absurd (by decide) hwhole
      | some m =>
        rw [hend] at hscan
        obtain ⟨rfl, rfl⟩ := Prod.mk.inj hscan
        have htake : ('*' :: cs).take (1 + m) = '*' :: cs.take m := by rw [Nat.add_comm]; rfl
        rw [htake, List.cons_append, scan_block, commentEnd?_take hend]
    · rw [scan_slash hline hblock] at hscan
      obtain ⟨rfl, -⟩ := Prod.mk.inj hscan
      exact absurd rfl hends

/-- A hyphen without digits is no token. -/
theorem scan_hyphen (hnumber : startsNumber '-' cs = false) : scan '-' cs = (plain .invalid, 0) := by
  have hdigit : cs.head?.any Char.isDigit = false := hnumber
  unfold scan
  rw [if_neg (by simp [hdigit]), if_neg (by decide)]
  rfl

/-- In front of a word stands neither a number nor a word, if the lexeme is none that runs on. -/
theorem starts_sign (hscan : scan c cs = (lexeme, n)) (hwhole : lexeme ∉ damaged)
    (hends : ∀ kind ∈ openKinds, lexeme ≠ plain kind)
    (hnext : ∃ w ∈ (cs.drop n).head?, isWordChar w = true) :
    startsNumber c cs = false ∧ (isLetter c || c == '_') = false := by
  -- Behind a word, a GUID or a number stands something that is no part of a word; but a word was to
  -- follow.
  have happart {m : Nat} (hm : 0 < m) (hn : n = m - 1)
      (hbehind : ∀ w ∈ ((c :: cs).drop m).head?, isWordChar w = false) : False := by
    obtain ⟨w, hw, hword⟩ := hnext
    rw [hn, drop_pred hm] at hw
    rw [hbehind w hw] at hword
    cases hword
  cases hnumber : startsNumber c cs with
  | true =>
    rw [scan_number hnumber] at hscan
    obtain ⟨rfl, rfl⟩ := Prod.mk.inj hscan
    have hkind := scanNumber_kind (c :: cs)
    simp only [List.mem_cons, List.not_mem_nil, or_false] at hkind
    rcases hkind with hkind | hkind | hkind | hkind
    · exact absurd (by rw [hkind]; decide) hwhole
    · exact absurd hkind (hends _ (by decide))
    · obtain ⟨hlength, hstarts⟩ := scanNumber_guid hkind
      exact (happart (by decide) (by rw [hlength]) (isWordChar_behind_guid hstarts)).elim
    · exact absurd hkind (hends _ (by decide))
  | false =>
    cases hletter : isLetter c || c == '_' with
    | true =>
      rw [scan_word hnumber hletter] at hscan
      obtain ⟨rfl, rfl⟩ := Prod.mk.inj hscan
      have hword : isWordChar c = true := isWordChar_of_start hletter
      exact (happart (scanWord_pos hword) rfl (isWordChar_behind_word (c :: cs))).elim
    | false => exact ⟨rfl, rfl⟩

/-- **Where a word starts, a lexeme has ended by itself**, if it is none that runs on. Whatever
follows, it stays what it is, and it starts with a stop. -/
theorem scan_closed (hscan : scan c cs = (lexeme, n)) (hwhole : lexeme ∉ damaged)
    (hends : ∀ kind ∈ openKinds, lexeme ≠ plain kind)
    (hnext : ∃ w ∈ (cs.drop n).head?, isWordChar w = true) :
    isStop c = true ∧ ∀ rest', scan c (cs.take n ++ rest') = (lexeme, n) := by
  -- A number or a word would have gone on into the word character behind it.
  obtain ⟨hnumber, hletter⟩ := starts_sign hscan hwhole hends hnext
  have hc : c ≠ '-' := by
    rintro rfl
    rw [scan_hyphen hnumber] at hscan
    exact hends .invalid (by decide) (Prod.mk.inj hscan).1.symm
  have hdigit : c.isDigit = false := (Bool.or_eq_false_iff.1 hnumber).1
  constructor
  · have hletters := Bool.or_eq_false_iff.1 hletter
    exact isStop_iff.2 ⟨by simp [isWordChar, Char.isAlphanum, hdigit, hletters.2,
      show c.isAlpha = false from hletters.1], hc⟩
  intro rest'
  by_cases hslash : c = '/'
  · subst hslash
    exact scan_slash_closed hscan hwhole (hends _ (by decide)) hnext rest'
  unfold scan at hscan ⊢
  rw [if_neg (by simp [hdigit, hc]), if_neg (by simp [hletter])] at hscan ⊢
  split at hscan
  · exact absurd rfl hslash
  · exact scanString_closed hscan hwhole rest'
  · exact scanMarker_closed hscan (hends _ (by decide)) rest'
  · exact scanSign_closed hscan (hends _ (by decide)) rest'
  · exact scanSign_closed hscan (hends _ (by decide)) rest'
  · exact scanSign_closed hscan (hends _ (by decide)) rest'
  · exact scanSign_closed hscan (hends _ (by decide)) rest'
  all_goals
    obtain ⟨rfl, rfl⟩ := Prod.mk.inj hscan
    rfl

end StoryCheck.Lexeme
