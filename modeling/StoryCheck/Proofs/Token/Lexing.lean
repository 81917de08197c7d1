import StoryCheck.Token.Stream

/-!
# The tokens of a text

What every token of a text has in common: it is not the end of the text, which stands behind all of
them, and it starts where the one before it has ended.
-/

namespace StoryCheck

/-! ## Lexemes

The end of a text is stamped where no character is left, so no lexeme is it. Each scanner is asked
for itself which kinds it gives: a number is one of three, a word is reserved, a name or for an
instance, and what starts neither is a sign, a string or a comment. -/

/-- The kinds of the words that are reserved. -/
def TokenKind.keywords : List TokenKind :=
  [.and, .not, .then, .if, .proc, .qry, .initSection, .kbSection, .exitSection, .endExitSection,
    .goalCompleted]

/-- Only reserved words have a kind of their own. -/
theorem TokenKind.mem_keywords {word : String} {kind : TokenKind}
    (h : TokenKind.ofKeyword? word = some kind) : kind ∈ keywords := by
  unfold TokenKind.ofKeyword? at h
  split at h <;> cases h <;> decide

namespace Lexeme

variable {c : Char} {cs : List Char} {kind : TokenKind}

/-- The kinds of what is written with signs, and of a character that starts nothing. -/
def signKinds : List TokenKind :=
  [.marker, .equal, .notEqual, .less, .lessEqual, .greater, .greaterEqual, .lParen, .rParen, .lBrace,
    .rBrace, .comma, .semicolon, .dot, .invalid]

/-- A number has a fraction or none, or turns out to be the digits of an instance. -/
theorem scanNumber_kind (text : List Char) :
    (scanNumber text).1 ∈ [openReal, plain .real, plain .guid, plain .integer] := by
  unfold scanNumber
  dsimp only
  split
  · dsimp only
    split <;> simp
  · split <;> split <;> simp

/-- A word is reserved, for an instance or a name. -/
theorem scanWord_kind (text : List Char) :
    ∃ kind ∈ TokenKind.keywords ++ [.guid, .identifier], (scanWord text).1 = plain kind := by
  unfold scanWord
  dsimp only
  split
  next kind hkeyword =>
    exact ⟨kind, List.mem_append_left _ (TokenKind.mem_keywords hkeyword), rfl⟩
  next =>
    split
    · exact ⟨.guid, by decide, rfl⟩
    · exact ⟨.identifier, by decide, rfl⟩

/-- Whatever its end, what a quote opens is a string. -/
theorem scanString_quoted (cs : List Char) : ∃ quoting, (scanString cs).1 = quoted quoting := by
  unfold scanString
  split
  · exact ⟨_, rfl⟩
  · exact ⟨_, rfl⟩

/-- A bracket with letters in it is closed, or it starts nothing. -/
theorem scanMarker_kind (cs : List Char) :
    ∃ kind ∈ [TokenKind.marker, .invalid], (scanMarker cs).1 = plain kind := by
  unfold scanMarker
  dsimp only
  split
  · exact ⟨.marker, by decide, rfl⟩
  · exact ⟨.invalid, by decide, rfl⟩

/-- A sign stands alone or goes with the equals sign behind it. -/
theorem scanSign_kind (alone joined : TokenKind) (cs : List Char) :
    ∃ kind ∈ [joined, alone], (scanSign alone joined cs).1 = plain kind := by
  unfold scanSign
  split
  · exact ⟨joined, by simp, rfl⟩
  · exact ⟨alone, by simp, rfl⟩

/-- Whether a text is scanned as a number. -/
def startsNumber (c : Char) (cs : List Char) : Bool :=
  c.isDigit || (c == '-' && cs.head?.any Char.isDigit)

/-- Where a number starts, the lexeme is what the scanner of numbers finds. -/
theorem scan_number (h : startsNumber c cs = true) :
    scan c cs = ((scanNumber (c :: cs)).1, (scanNumber (c :: cs)).2 - 1) := by
  unfold scan
  exact if_pos h

/-- Where a word starts and no number, it is what the scanner of words finds. -/
theorem scan_word (hnumber : startsNumber c cs = false) (h : (isLetter c || c == '_') = true) :
    scan c cs = ((scanWord (c :: cs)).1, (scanWord (c :: cs)).2 - 1) := by
  unfold scan
  -- A letter is no digit, and the first test of the scanner is about digits.
  rw [startsNumber] at hnumber
  rw [if_neg (by simp [hnumber]), if_pos h]

/-- What starts neither a number nor a word is a comment or a string, or of one of these kinds. -/
theorem scan_sign (hnumber : startsNumber c cs = false) (hletter : (isLetter c || c == '_') = false)
    (h : (scan c cs).1 = plain kind) : kind ∈ signKinds := by
  have hsign (alone joined : TokenKind) (hkinds : [joined, alone] ⊆ signKinds)
      (h : (scanSign alone joined cs).1 = plain kind) : kind ∈ signKinds := by
    obtain ⟨kind', hmem, hkind⟩ := scanSign_kind alone joined cs
    cases hkind.symm.trans h
    exact hkinds hmem
  unfold scan at h
  rw [startsNumber] at hnumber
  rw [if_neg (by simp [hnumber]), if_neg (by simp [hletter])] at h
  split at h
  · -- Behind a slash stands a comment, or nothing that goes with it.
    split at h
    · cases h
    · split at h <;> cases h
    · cases h
      decide
  · obtain ⟨quoting, hquoted⟩ := scanString_quoted cs
    cases hquoted.symm.trans h
  · obtain ⟨kind', hmem, hkind⟩ := scanMarker_kind cs
    cases hkind.symm.trans h
    exact (by decide : [TokenKind.marker, .invalid] ⊆ signKinds) hmem
  · exact hsign _ _ (by decide) h
  · exact hsign _ _ (by decide) h
  · exact hsign _ _ (by decide) h
  · exact hsign _ _ (by decide) h
  all_goals
    cases h
    decide

/-- **No lexeme is the end of a text**: not one of the scanners gives that kind. -/
theorem scan_ne_endOfFile (c : Char) (cs : List Char) : (scan c cs).1 ≠ plain .endOfFile := by
  intro h
  cases hnumber : startsNumber c cs with
  | true =>
    rw [scan_number hnumber] at h
    have hkind := scanNumber_kind (c :: cs)
    rw [show (scanNumber (c :: cs)).1 = plain .endOfFile from h] at hkind
    exact absurd hkind (by decide)
  | false =>
    cases hletter : isLetter c || c == '_' with
    | true =>
      rw [scan_word hnumber hletter] at h
      obtain ⟨kind, hmem, hkind⟩ := scanWord_kind (c :: cs)
      cases hkind.symm.trans h
      exact absurd hmem (by decide)
    | false => exact absurd (scan_sign hnumber hletter h) (by decide)

end Lexeme

/-! ## Steps

Each step passes at least one character, so the scanner comes to an end. -/

namespace Scanner

variable {index : LineIndex} {s : Scanner} {c : Char} {cs : List Char} {token : Token}

/-- What a lexeme is as a token: never the end of a text, and all of its text if it is a name. -/
theorem token?_eq_some {lexeme : Lexeme} {text value : List Char} {kind : TokenKind}
    (hlexeme : lexeme ≠ .plain .endOfFile) (h : token? lexeme text = some (kind, value)) :
    kind ≠ .endOfFile ∧ (kind = .identifier → value = text) := by
  unfold token? at h
  split at h
  · cases h
  · cases h
  · cases h
    exact ⟨by decide, nofun⟩
  · cases h
    exact ⟨by decide, nofun⟩
  · cases h
    exact ⟨by decide, nofun⟩
  · cases h
    exact ⟨fun hend => hlexeme (congrArg _ hend), fun _ => rfl⟩

/-- A token of a step is not the end of the text, takes up room where the step started and up to
where it ended, and has text if it is a name. -/
theorem step_token (h : (step index s c cs).token = some token) :
    token.kind ≠ .endOfFile ∧ (token.kind = .identifier → token.value ≠ "")
      ∧ token.range.span = ⟨s.offset, (step index s c cs).scanner.offset⟩ := by
  unfold step at h ⊢
  split
  next hseparator =>
    rw [if_pos hseparator] at h
    cases h
  next hseparator =>
    rw [if_neg hseparator] at h
    obtain ⟨⟨kind, value⟩, htoken, rfl⟩ := Option.map_eq_some_iff.1 h
    obtain ⟨hkind, hvalue⟩ := token?_eq_some (Lexeme.scan_ne_endOfFile c cs) htoken
    refine ⟨hkind, fun hname hempty => ?_, rfl⟩
    have hempty : String.ofList value = "" := hempty
    rw [hvalue hname] at hempty
    simp at hempty

/-- Every step goes forward by a character at least. -/
theorem offset_lt_offset_step (index : LineIndex) (s : Scanner) (c : Char) (cs : List Char) :
    s.offset < (step index s c cs).scanner.offset := by
  have hc := Char.utf8Size_pos c
  unfold step
  split
  · simpa
  · simp only [byteLength_cons]
    omega

end Scanner

/-! ## All tokens

The tokens of a text are collected step by step from the front. What is shown of all of them is
shown along this recursion, for a scanner that may stand anywhere in the text. -/

namespace TokenList

variable {index : LineIndex} {s : Scanner} {c : Char} {cs : List Char}

/-- At the end there is the token of the end. -/
theorem collect_nil (h : s.rest = []) : collect index s = { last := s.endToken index } := by
  rw [collect]
  split
  next => rfl
  next hrest => cases h.symm.trans hrest

/-- Otherwise there is a step, which may make a token, and then the rest. -/
theorem collect_cons (h : s.rest = c :: cs) :
    collect index s =
      { tokens := (s.step index c cs).token.toList ++ (collect index (s.step index c cs).scanner).tokens
        last := (collect index (s.step index c cs).scanner).last
        reports := (s.step index c cs).reports
          ++ (collect index (s.step index c cs).scanner).reports } := by
  rw [collect]
  split
  next hrest => cases h.symm.trans hrest
  next hrest =>
    obtain ⟨rfl, rfl⟩ := List.cons.inj (h.symm.trans hrest)
    rfl

/-- No token but the last one is the end of the text, and names are not empty. -/
theorem kind_collect (index : LineIndex) (s : Scanner) :
    (∀ token ∈ (collect index s).tokens,
      token.kind ≠ .endOfFile ∧ (token.kind = .identifier → token.value ≠ ""))
      ∧ (collect index s).last.kind = .endOfFile := by
  induction s using collect.induct index with
  | case1 s hrest =>
    rw [collect_nil hrest]
    exact ⟨nofun, rfl⟩
  | case2 s c cs hrest found ih =>
    rw [collect_cons hrest]
    refine ⟨fun token hmem => ?_, ih.2⟩
    rcases List.mem_append.1 hmem with hmem | hmem
    · obtain ⟨hkind, hname, -⟩ := Scanner.step_token (Option.mem_toList.1 hmem)
      exact ⟨hkind, hname⟩
    · exact ih.1 token hmem

/-- Tokens stand one behind the other from the offset on, and each but the last takes up room. -/
structure Ordered (start : Nat) (list : TokenList) : Prop where
  room : ∀ token ∈ list.tokens, token.range.span.start < token.range.span.stop
  start_le : ∀ token ∈ list.all, start ≤ token.range.span.start
  pairwise : list.all.Pairwise fun a b => a.range.span.stop ≤ b.range.span.start

/-- The tokens that are collected stand one behind the other. -/
theorem ordered_collect (index : LineIndex) (s : Scanner) :
    Ordered s.offset (collect index s) := by
  -- A token ends where the next step starts.
  induction s using collect.induct index with
  | case1 s hrest =>
    rw [collect_nil hrest]
    exact ⟨nofun, by simp [all, Scanner.endToken, Scanner.stamp], by simp [all]⟩
  | case2 s c cs hrest found ih =>
    have hlt := Scanner.offset_lt_offset_step index s c cs
    rw [collect_cons hrest]
    cases htoken : (s.step index c cs).token with
    | none =>
      exact ⟨ih.room, fun token hmem => Nat.le_trans (Nat.le_of_lt hlt) (ih.start_le token hmem), ih.pairwise⟩
    | some token =>
      obtain ⟨-, -, hspan⟩ := Scanner.step_token htoken
      constructor
      · intro other hmem
        rcases List.mem_cons.1 hmem with rfl | hmem
        · simpa [hspan] using hlt
        · exact ih.room other hmem
      · intro other hmem
        rcases List.mem_cons.1 hmem with rfl | hmem
        · simp [hspan]
        · exact Nat.le_trans (Nat.le_of_lt hlt) (ih.start_le other hmem)
      · refine List.pairwise_cons.2 ⟨fun other hmem => ?_, ih.pairwise⟩
        rw [hspan]
        exact ih.start_le other hmem

/-- The tokens of a text: none is the end of the text, and no name is empty. -/
theorem kind_ofText (text : String) :
    (∀ token ∈ (ofText text).tokens,
      token.kind ≠ .endOfFile ∧ (token.kind = .identifier → token.value ≠ ""))
      ∧ (ofText text).last.kind = .endOfFile :=
  kind_collect _ _

/-- The tokens of a text stand one behind the other. -/
theorem ordered_ofText (text : String) : Ordered 0 (ofText text) :=
  ordered_collect (.ofText text) (.ofText text)

end TokenList

end StoryCheck
