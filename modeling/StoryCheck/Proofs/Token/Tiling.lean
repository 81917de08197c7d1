import StoryCheck.Proofs.Token.Places

/-!
# Tokens tile their text

A text is made of its tokens and of the gaps between them, and a gap is made of separators and of
comments, each of them whole. So no character gets lost between two tokens, and none is in two.

* **`IsGap`** — what may stand between two tokens.
* **`IsSpelled`** — how the part of a text that a token covers gives its value.
* **`Tiles`** — a text cut into gaps and tokens.
* **`tokens_tile_text`** — the tokens of a text tile it.
-/

namespace StoryCheck

/-! ## Gaps

What may stand between tokens: separators, and comments up to their ends. -/

/-- Something whole that may stand in a gap, in front of the rest of a text. Only at the end of the
text a block comment may be open. -/
inductive Filler (rest : List Char) : List Char → Prop
  | separator {c : Char} (kind : c ∈ [' ', '\t', '\r', '\n', '\x0c']) : Filler rest [c]
  | lineComment {line : List Char} (inside : ∀ c ∈ line, c ∉ ['\r', '\n'])
    (stops : ∀ c ∈ rest.head?, c ∈ ['\r', '\n']) : Filler rest ('/' :: '/' :: line)
  | blockComment {body : List Char} (inside : ¬ ['*', '/'] <:+: body ++ ['*']) :
    Filler rest ('/' :: '*' :: (body ++ ['*', '/']))
  | openComment {body : List Char} (inside : ¬ ['*', '/'] <:+: body) (stops : rest = []) :
    Filler rest ('/' :: '*' :: body)

/-- A gap in front of the rest of a text. -/
inductive IsGap (rest : List Char) : List Char → Prop
  | nil : IsGap rest []
  | cons {piece gap : List Char} (first : Filler (gap ++ rest) piece) (more : IsGap rest gap) :
    IsGap rest (piece ++ gap)

/-! ## Values

The value of a token is its text; only a string loses the quotes around it. -/

/-- A text without a bare quote: each stands behind a backslash that takes it along. -/
inductive HidesQuotes : List Char → Prop
  | nil : HidesQuotes []
  | plain {c : Char} {cs : List Char} (quote : c ≠ '"') (slash : c ≠ '\\') (more : HidesQuotes cs) :
    HidesQuotes (c :: cs)
  | hidden {c : Char} {cs : List Char} (more : HidesQuotes cs) : HidesQuotes ('\\' :: c :: cs)

/-- How a token of a kind and a value is spelled in front of the rest of a text. A string is spelled
with quotes around its value. It has no second one if there is none in the text, and goes to the
end of its line then. What is no token is one character, or an opening bracket with letters. -/
inductive IsSpelled (rest : List Char) : TokenKind → (value spelled : List Char) → Prop
  | plain {kind : TokenKind} {value : List Char} (other : kind ∉ [.string, .invalid, .endOfFile]) :
    IsSpelled rest kind value value
  | invalid {c : Char} {letters : List Char} (letter : ∀ l ∈ letters, l.isAlpha = true)
    (bracket : letters ≠ [] → c = '[') : IsSpelled rest .invalid (c :: letters) (c :: letters)
  | closed {body : List Char} (inside : HidesQuotes body) :
    IsSpelled rest .string body ('"' :: (body ++ ['"']))
  | unclosed {body : List Char} (inside : ∀ c ∈ body, c ∉ ['\r', '\n'])
    (stops : ∀ c ∈ rest.head?, c ∈ ['\r', '\n'])
    (noEnd : ∀ front back, body ++ rest = front ++ '"' :: back → ¬ HidesQuotes front) :
    IsSpelled rest .string body ('"' :: body)

/-! ## Lexemes

What a scanner took is compared with the grammar of fillers and spellings. For most lexemes there is
nothing to be said beyond that they were taken; strings and comments say where they end. -/

namespace Lexeme

/-- The characters that break a line. -/
theorem isLineBreak_iff {c : Char} : isLineBreak c = true ↔ c ∈ ['\r', '\n'] := by
  simp [isLineBreak]

/-- The characters that separate tokens. -/
theorem isSeparator_iff {c : Char} :
    isSeparator c = true ↔ c ∈ [' ', '\t', '\r', '\n', '\x0c'] := by
  simp [isSeparator, or_assoc]

/-- What a predicate takes from the front. -/
theorem take_span (p : Char → Bool) (cs : List Char) : cs.take (span p cs) = cs.takeWhile p :=
  (List.prefix_iff_eq_take.1 ( List.takeWhile_prefix p)).symm

/-- What a predicate leaves. -/
theorem drop_span (p : Char → Bool) (cs : List Char) : cs.drop (span p cs) = cs.dropWhile p := by
  have hparts : cs.takeWhile p ++ cs.dropWhile p = cs := List.takeWhile_append_dropWhile
  calc cs.drop (span p cs)
      = (cs.takeWhile p ++ cs.dropWhile p).drop (cs.takeWhile p).length := by rw [hparts, span]
    _ = cs.dropWhile p := List.drop_left

/-- What goes to the end of a line has no line break in it and one behind it, unless it goes to the
end of the text. -/
theorem inside_line {cs : List Char} :
    (∀ c ∈ cs.takeWhile fun c => !isLineBreak c, c ∉ ['\r', '\n'])
      ∧ ∀ c ∈ (cs.dropWhile fun c => !isLineBreak c).head?, c ∈ ['\r', '\n'] := by
  constructor
  · intro c hc hbreak
    have hpass := List.all_eq_true.1 List.all_takeWhile c hc
    rw [isLineBreak_iff.2 hbreak] at hpass
    cases hpass
  · intro c hc
    have hfail := List.head?_dropWhile_not (fun c => !isLineBreak c) cs
    rw [Option.mem_def.1 hc] at hfail
    exact isLineBreak_iff.1 (by simpa using hfail)

/-- A block comment ends with the first sign that closes it. -/
theorem commentEnd?_eq_some {cs : List Char} {n : Nat} (h : commentEnd? cs = some n) :
    ∃ body, cs.take n = body ++ ['*', '/'] ∧ ¬ ['*', '/'] <:+: body ++ ['*'] := by
  fun_induction commentEnd? cs generalizing n with
  | case1 => cases h
  | case2 cs =>
    obtain rfl := Option.some.inj h
    exact ⟨[], rfl, by decide⟩
  | case3 c cs hopen ih =>
    obtain ⟨m, hm, rfl⟩ := Option.map_eq_some_iff.1 h
    obtain ⟨body, htake, hbody⟩ := ih hm
    refine ⟨c :: body, by rw [List.take_succ_cons, htake]; rfl, fun hpart => ?_⟩
    rcases List.infix_cons_iff.1 hpart with hstart | hmore
    · -- Else the comment were closed here already.
      obtain ⟨back, hback⟩ := hstart
      obtain ⟨rfl, hslash⟩ := List.cons.inj hback
      obtain ⟨tail, htail⟩ : ∃ tail, cs.take m = '/' :: tail := by
        cases body with
        | nil => cases hslash
        | cons d body =>
          obtain ⟨rfl, -⟩ := List.cons.inj hslash
          exact ⟨_, htake⟩
      cases cs with
      | nil => simp at htail
      | cons d cs =>
        cases m with
        | zero => simp at htail
        | succ m =>
          obtain ⟨rfl, -⟩ := List.cons.inj htail
          exact hopen cs rfl rfl
    · exact hbody hmore

/-- An open comment has no closing in it. -/
theorem commentEnd?_eq_none {cs : List Char} (h : commentEnd? cs = none) :
    ¬ ['*', '/'] <:+: cs := by
  -- The closing would be found at the first place where it stands.
  fun_induction commentEnd? cs with
  | case1 => simp
  | case2 cs => cases h
  | case3 c cs hopen ih =>
    intro hpart
    rcases List.infix_cons_iff.1 hpart with hstart | hmore
    · obtain ⟨rest, hrest⟩ := hstart
      obtain ⟨rfl, rfl⟩ := List.cons.inj hrest
      exact hopen rest rfl rfl
    · exact ih (Option.map_eq_none_iff.1 h) hmore

/-- A string ends with its first bare quote. -/
theorem stringEnd?_eq_some {broken b : Bool} {cs : List Char} {n : Nat}
    (h : stringEnd? broken cs = some (n, b)) :
    ∃ body, cs.take n = body ++ ['"'] ∧ HidesQuotes body := by
  fun_induction stringEnd? broken cs generalizing n with
  | case1 => cases h
  | case2 broken cs =>
    obtain ⟨rfl, -⟩ := Prod.mk.inj (Option.some.inj h)
    exact ⟨[], rfl, .nil⟩
  | case3 => cases h
  | case4 broken c cs ih =>
    obtain ⟨⟨m, b'⟩, hm, heq⟩ := Option.map_eq_some_iff.1 h
    obtain ⟨rfl, rfl⟩ := Prod.mk.inj heq
    obtain ⟨body, htake, hbody⟩ := ih hm
    exact ⟨'\\' :: c :: body, by simp [htake], .hidden hbody⟩
  | case5 broken c cs hquote hend hslash ih =>
    obtain ⟨⟨m, b'⟩, hm, heq⟩ := Option.map_eq_some_iff.1 h
    obtain ⟨rfl, rfl⟩ := Prod.mk.inj heq
    obtain ⟨body, htake, hbody⟩ := ih hm
    refine ⟨c :: body, by simp [htake], .plain hquote ?_ hbody⟩
    rintro rfl
    cases cs with
    | nil => exact hend rfl rfl
    | cons d cs => exact hslash d cs rfl rfl

/-- A character that is no quotation mark and no backslash is passed. -/
theorem stringEnd?_plain {broken : Bool} {c : Char} {cs : List Char} (hquote : c ≠ '"')
    (hslash : c ≠ '\\') :
    stringEnd? broken (c :: cs)
      = (stringEnd? (broken || isLineBreak c) cs).map fun (n, b) => (n + 1, b) := by
  rw [stringEnd?]
  · exact hquote
  · exact fun heq _ => hslash heq
  · exact fun _ _ heq _ => hslash heq

/-- A string has no end only if no bare quote follows. -/
theorem stringEnd?_eq_none {broken : Bool} {front back : List Char}
    (h : stringEnd? broken (front ++ '"' :: back) = none) : ¬ HidesQuotes front := by
  intro hfront
  induction hfront generalizing broken with
  | nil => simp [stringEnd?] at h
  | plain hquote hslash hmore ih =>
    rw [List.cons_append, stringEnd?_plain hquote hslash] at h
    exact ih (Option.map_eq_none_iff.1 h)
  | hidden hmore ih =>
    rw [List.cons_append, List.cons_append, stringEnd?] at h
    exact ih (Option.map_eq_none_iff.1 h)

/-! ### What a lexeme stands for

One lemma for each scanner, which says what the lexeme took and that nothing of it is left over. -/

/-- A lexeme is something in a gap or a token, and covers what spells it. -/
def Covers (lexeme : Lexeme) (text rest : List Char) : Prop :=
  match Scanner.token? lexeme text with
  | none => Filler rest text
  | some (kind, value) => IsSpelled rest kind value text

variable {text rest : List Char}

/-- A plain lexeme covers what it took. -/
theorem covers_plain {kind : TokenKind} (h : kind ∉ [.string, .invalid, .endOfFile]) :
    Covers (plain kind) text rest :=
  IsSpelled.plain h

/-- A character that starts no token is one by itself. -/
theorem covers_invalid (c : Char) : Covers (plain .invalid) [c] rest :=
  IsSpelled.invalid nofun nofun

/-- A number covers all of its text, also one that ends with its point. -/
theorem covers_scanNumber (cs : List Char) : Covers (scanNumber cs).1 text rest := by
  have hreal : Covers openReal text rest := IsSpelled.plain (by decide)
  unfold scanNumber
  dsimp only
  split
  · dsimp only
    split
    · exact hreal
    · exact covers_plain (by decide)
  · split <;> split <;> exact covers_plain (by decide)

/-- A reserved word is none of the kinds with a value of their own. -/
theorem ofKeyword?_eq_some {word : String} {kind : TokenKind}
    (h : TokenKind.ofKeyword? word = some kind) : kind ∉ [.string, .invalid, .endOfFile] := by
  have hplain : ∀ kind ∈ TokenKind.keywords, kind ∉ [.string, .invalid, .endOfFile] := by decide
  exact hplain kind (TokenKind.mem_keywords h)

/-- A word covers what it took. -/
theorem covers_scanWord (cs : List Char) : Covers (scanWord cs).1 text rest := by
  unfold scanWord
  dsimp only
  split
  next kind hkeyword => exact covers_plain (ofKeyword?_eq_some hkeyword)
  next =>
    split
    · exact covers_plain (by decide)
    · exact covers_plain (by decide)

/-- A marker covers its brackets and what stands between them. -/
theorem covers_scanMarker (cs : List Char) :
    Covers (scanMarker cs).1 ('[' :: cs.take (scanMarker cs).2) (cs.drop (scanMarker cs).2) := by
  unfold scanMarker
  dsimp only
  split
  · exact covers_plain (by decide)
  · rw [take_span]
    exact IsSpelled.invalid (List.all_eq_true.1 List.all_takeWhile) fun _ => rfl

/-- A sign covers one or two characters. -/
theorem covers_scanSign {alone joined : TokenKind} (c : Char) (cs : List Char)
    (hjoined : joined ∉ [.string, .invalid, .endOfFile])
    (halone : alone = .invalid ∨ alone ∉ [.string, .invalid, .endOfFile]) :
    Covers (scanSign alone joined cs).1 (c :: cs.take (scanSign alone joined cs).2) rest := by
  unfold scanSign
  split
  · exact covers_plain hjoined
  · rcases halone with rfl | halone
    · exact covers_invalid c
    · exact covers_plain halone

/-- A string is spelled between its quotation marks, or to the end of the text if it is open. -/
theorem covers_scanString (cs : List Char) :
    Covers (scanString cs).1 ('"' :: cs.take (scanString cs).2) (cs.drop (scanString cs).2) := by
  unfold scanString
  split
  next n broken hend =>
    obtain ⟨body, htake, hbody⟩ := stringEnd?_eq_some hend
    have hclosed : IsSpelled (cs.drop n) .string body ('"' :: cs.take n) :=
      htake ▸ .closed hbody
    dsimp only
    split <;> simpa [Covers, Scanner.token?, htake] using hclosed
  next hend =>
    dsimp only
    rw [take_span, drop_span]
    refine IsSpelled.unclosed inside_line.1 inside_line.2 fun front back hparts => ?_
    have hcs : cs = front ++ '"' :: back := List.takeWhile_append_dropWhile.symm.trans hparts
    exact stringEnd?_eq_none (hcs ▸ hend)

/-- A comment to the end of the line is a filler. -/
theorem covers_lineComment (cs : List Char) :
    Covers lineComment
      ('/' :: ('/' :: cs).take (span (fun c => !isLineBreak c) ('/' :: cs)))
      (('/' :: cs).drop (span (fun c => !isLineBreak c) ('/' :: cs))) := by
  rw [take_span, drop_span]
  exact Filler.lineComment inside_line.1 inside_line.2

/-- So is one between its marks; an open one goes to the end of the text. -/
theorem covers_blockComment (body : List Char) :
    let found : Lexeme × Nat := match commentEnd? body with
      | some n => (blockComment true, 1 + n)
      | none => (blockComment false, ('*' :: body).length)
    Covers found.1 ('/' :: ('*' :: body).take found.2) (('*' :: body).drop found.2) := by
  dsimp only
  split
  next n hend =>
    obtain ⟨inner, htake, hinner⟩ := commentEnd?_eq_some hend
    dsimp only
    rw [Nat.add_comm 1 n, List.take_succ_cons, htake]
    exact Filler.blockComment hinner
  next hend =>
    dsimp only
    rw [List.take_length, List.drop_length]
    exact Filler.openComment (commentEnd?_eq_none hend) rfl

/-- **What stands at the start of a text covers what spells it.** -/
theorem covers_scan (c : Char) (cs : List Char) :
    Covers (scan c cs).1 (c :: cs.take (scan c cs).2) (cs.drop (scan c cs).2) := by
  unfold scan
  split
  · exact covers_scanNumber _
  split
  · exact covers_scanWord _
  split
  · split
    · exact covers_lineComment _
    · exact covers_blockComment _
    · exact covers_invalid _
  · exact covers_scanString cs
  · exact covers_scanMarker cs
  · exact covers_scanSign _ cs (by decide) (.inl rfl)
  · exact covers_scanSign _ cs (by decide) (.inl rfl)
  · exact covers_scanSign _ cs (by decide) (.inr (by decide))
  · exact covers_scanSign _ cs (by decide) (.inr (by decide))
  all_goals first | exact covers_invalid _ | exact covers_plain (by decide)

end Lexeme

/-! ## Texts

A text is cut from the front, and the gaps that follow each other are put together. -/

/-- A text from an offset on, cut into gaps and tokens. A token stands over the characters that
spell it. The last token stands at the end of the text and covers nothing. -/
inductive Tiles (index : LineIndex) (last : Token) : (offset : Nat) → List Char → List Token → Prop
  | ending {offset : Nat} {gap : List Char} (blank : IsGap [] gap)
    (kind : last.kind = .endOfFile) (value : last.value = "")
    (start : last.range.span.start = offset + byteLength gap)
    (stop : last.range.span.stop = last.range.span.start)
    (startsAt : last.range.first = index.position last.range.span.start)
    (stopsAt : last.range.last = index.position last.range.span.stop) :
    Tiles index last offset gap []
  | token {offset : Nat} {gap spelled rest : List Char} {token : Token} {tokens : List Token}
    (blank : IsGap (spelled ++ rest) gap)
    (room : spelled ≠ []) (spells : IsSpelled rest token.kind token.value.toList spelled)
    (start : token.range.span.start = offset + byteLength gap)
    (stop : token.range.span.stop = token.range.span.start + byteLength spelled)
    (startsAt : token.range.first = index.position token.range.span.start)
    (stopsAt : token.range.last = index.position token.range.span.stop)
    (more : Tiles index last token.range.span.stop rest tokens) :
    Tiles index last offset (gap ++ (spelled ++ rest)) (token :: tokens)

/-- Something that may stand in a gap makes the first gap longer. -/
theorem Tiles.prepend {index : LineIndex} {last : Token} {offset : Nat} {cs piece : List Char}
    {tokens : List Token} (hpiece : Filler cs piece)
    (h : Tiles index last (offset + byteLength piece) cs tokens) :
    Tiles index last offset (piece ++ cs) tokens := by
  cases h with
  | ending blank kind value start stop startsAt stopsAt =>
    refine .ending (.cons (by simpa using hpiece) blank) kind value ?_ stop startsAt stopsAt
    rw [start, byteLength_append, Nat.add_assoc]
  | token blank room spells start stop startsAt stopsAt more =>
    rw [← List.append_assoc]
    refine .token (.cons hpiece blank) room spells ?_ stop startsAt stopsAt more
    rw [start, byteLength_append, Nat.add_assoc]

/-- The last token of a tiled text stands at its end. -/
theorem Tiles.span_last {index : LineIndex} {last : Token} {offset : Nat} {cs : List Char}
    {tokens : List Token} (h : Tiles index last offset cs tokens) :
    last.range.span = ⟨offset + byteLength cs, offset + byteLength cs⟩ := by
  induction h with
  | ending blank kind value start stop startsAt stopsAt =>
    rw [← start]
    exact congrArg (Span.mk _) stop
  | token blank room spells start stop startsAt stopsAt more ih =>
    rw [ih, stop, start, byteLength_append, byteLength_append, Nat.add_assoc, Nat.add_assoc]

namespace TokenList

/-- What is found from a place in a text on tiles the text from there on. -/
theorem tiles_collect (index : LineIndex) (s : Scanner) :
    Tiles index (collect index s).last s.offset s.rest (collect index s).tokens := by
  -- Along the scanner: a step passes a gap, which goes in front of what follows, or a token.
  induction s using collect.induct index with
  | case1 s hrest =>
    rw [collect_nil hrest, hrest]
    exact .ending .nil rfl rfl rfl rfl rfl rfl
  | case2 s c cs hrest found ih =>
    rw [collect_cons hrest, hrest]
    change Tiles index (collect index found.scanner).last s.offset (c :: cs)
      (found.token.toList ++ (collect index found.scanner).tokens)
    by_cases hseparator : Lexeme.isSeparator c = true
    · have hfound : found = { scanner := { s with rest := cs, offset := s.offset + c.utf8Size } } :=
        if_pos hseparator
      rw [hfound] at ih ⊢
      exact Tiles.prepend (.separator (Lexeme.isSeparator_iff.1 hseparator)) ih
    · have hfound : found = _ := if_neg hseparator
      have hcovers := Lexeme.covers_scan c cs
      have hparts : c :: cs = c :: cs.take (Lexeme.scan c cs).2 ++ cs.drop (Lexeme.scan c cs).2 := by
        rw [List.cons_append, List.take_append_drop]
      rw [hparts]
      unfold Lexeme.Covers at hcovers
      split at hcovers
      next hgap =>
        have htoken : found.token = none := by rw [hfound]; simp [hgap]
        rw [htoken]
        rw [hfound] at ih ⊢
        exact Tiles.prepend hcovers ih
      next kind value hvalue =>
        have htoken : found.token = some (Scanner.stamp index s.remarks kind value
            ⟨s.offset, s.offset + byteLength (c :: cs.take (Lexeme.scan c cs).2)⟩) := by
          rw [hfound]
          simp only [hvalue, Option.map_some]
        rw [htoken]
        rw [hfound] at ih ⊢
        exact .token .nil (List.cons_ne_nil _ _) (by simpa [Scanner.stamp] using hcovers) rfl rfl
          rfl rfl ih

/-- **The tokens of a text tile it.** The text is cut into gaps of separators and whole comments
and into tokens, each over what spells its value and with the positions of its ends. The tokens
take up room and stand one behind the other, between the characters of the text, and behind them
all stands one at the end of the text. -/
theorem tokens_tile_text (text : String) :
    Tiles (.ofText text) (ofText text).last 0 text.toList (ofText text).tokens
      ∧ (ofText text).Ordered 0
      ∧ (∀ token ∈ (ofText text).all, token.range.IsIn text)
      ∧ (ofText text).last.range.span = ⟨byteLength text.toList, byteLength text.toList⟩ := by
  have htiles := tiles_collect (.ofText text) (.ofText text)
  refine ⟨htiles, ordered_ofText text, isIn_ofText text, ?_⟩
  have hlast := htiles.span_last
  rwa [show (Scanner.ofText text).offset = 0 from rfl, Nat.zero_add] at hlast

end TokenList

end StoryCheck
