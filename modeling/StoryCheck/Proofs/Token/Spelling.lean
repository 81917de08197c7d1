import StoryCheck.Proofs.Token.Respelling

/-!
# How a text without reports is spelled

What stands in a text about whose tokens there is nothing to report: its strings are closed, and a
text of one name is the name with blanks around it, if it takes nothing along that is put behind it.

* **`comment_before_bracket`** — a comment takes a bracket along that is put behind the text, or goes
  with the blanks.
* **`isNameText_of_tokens`** — a text of one name.
* **`standsAt_string`** — a string stands between quotes.
-/

namespace StoryCheck

open Lexeme Scanner

/-! ## Names

A text that is read as one name has nothing else in it but blanks. That a bracket behind it is still
a token rules out a comment which would take it along. -/

/-- What is passed over is a comment. A line comment goes up to a line break, and a block comment
ends where its text does. -/
theorem Lexeme.scan_comment {c : Char} {text rest : List Char} {lexeme : Lexeme}
    (hc : isSeparator c = false) (hscan : scan c (text ++ rest) = (lexeme, text.length))
    (hwhole : lexeme ∉ damaged) (hnone : token? lexeme (c :: text) = none) :
    c = '/' ∧ ((∃ line, text = '/' :: line ∧ (∀ d ∈ line, isLineBreak d = false)
        ∧ ∀ d ∈ rest.head?, isLineBreak d = true)
      ∨ ∃ body, text = '*' :: body ∧ commentEnd? body = some body.length) := by
  have hblock {body : List Char} (hslash : c = '/') (htext : text = '*' :: body) :
      commentEnd? body = some body.length := by
    subst hslash htext
    rw [List.cons_append, scan_block] at hscan
    cases hend : commentEnd? (body ++ rest) with
    | none =>
      rw [hend] at hscan
      obtain ⟨rfl, -⟩ := Prod.mk.inj hscan
      exact absurd (by decide) hwhole
    | some n =>
      rw [hend] at hscan
      obtain rfl : n = body.length := by
        have hlength : 1 + n = body.length + 1 := (Prod.mk.inj hscan).2
        omega
      have htake := commentEnd?_take hend []
      rwa [List.take_left, List.append_nil] at htake
  -- Of what a lexeme covers only a separator and comments give no token, and the text starts with
  -- no separator.
  have hcovers := covers_scan c (text ++ rest)
  rw [hscan] at hcovers
  dsimp only at hcovers
  rw [List.take_left, List.drop_left, Covers, hnone] at hcovers
  dsimp only at hcovers
  generalize hpiece : c :: text = piece at hcovers
  cases hcovers with
  | separator kind =>
    obtain ⟨rfl, -⟩ := List.cons.inj hpiece
    rw [isSeparator_iff.2 kind] at hc
    cases hc
  | lineComment inside stops =>
    obtain ⟨hslash, htext⟩ := List.cons.inj hpiece
    refine ⟨hslash, .inl ⟨_, htext, fun d hd => ?_, fun d hd => isLineBreak_iff.2 (stops d hd)⟩⟩
    exact Bool.eq_false_iff.2 fun hbreak => inside d hd (isLineBreak_iff.1 hbreak)
  | blockComment =>
    obtain ⟨hslash, htext⟩ := List.cons.inj hpiece
    exact ⟨hslash, .inr ⟨_, htext, hblock hslash htext⟩⟩
  | openComment =>
    obtain ⟨hslash, htext⟩ := List.cons.inj hpiece
    exact ⟨hslash, .inr ⟨_, htext, hblock hslash htext⟩⟩

namespace TokenList

/-- A comment in a text that has a bracket behind it. If there is a token then, the comment goes
with the blanks behind it. -/
theorem comment_before_bracket (index : LineIndex) {s : Scanner} {c : Char} {text rest : List Char}
    {lexeme : Lexeme} (hrest : s.rest = c :: (text ++ (rest ++ ['(']))) (hc : isSeparator c = false)
    (hscan : scan c (text ++ rest) = (lexeme, text.length)) (hwhole : lexeme ∉ damaged)
    (hnone : token? lexeme (c :: text) = none) (hsome : (collect index s).tokens ≠ [])
    (hregion : lexeme = .lineComment → ∀ lead ∈ regionLeads, ¬ lead <+: c :: text) :
    (collect index s).tokens
        = (collect index (s.behind lexeme (c :: text) (rest ++ ['(']))).tokens
      ∧ ∀ blank back, rest = blank ++ back → (∀ d ∈ back.head?, isSeparator d = false) →
        IsBlank blank → IsBlank (c :: (text ++ blank)) := by
  obtain ⟨rfl, ⟨line, rfl, inside, stops⟩ | ⟨body, rfl, hcloses⟩⟩ :=
    scan_comment hc hscan hwhole hnone
  · obtain rfl : lineComment = lexeme := (Prod.mk.inj hscan).1
    cases rest with
    | nil =>
      -- The bracket would be in the comment.
      have hall : ('/' :: line ++ ['(']).takeWhile (fun d => !isLineBreak d) = '/' :: line ++ ['('] := by
        refine List.takeWhile_eq_self_iff.2 fun d hd => ?_
        simp only [List.cons_append, List.mem_cons, List.mem_append, List.not_mem_nil,
          or_false] at hd
        rcases hd with rfl | hd | rfl
        · rfl
        · simp [inside d hd]
        · rfl
      have htaken : scan '/' (('/' :: line ++ ['(']) ++ [])
          = (lineComment, ('/' :: line ++ ['(']).length) := by
        rw [List.append_nil, List.cons_append, scan_line, ← List.cons_append, span, hall]
      obtain ⟨htokens, -⟩ :=
        collect_comment index (by simpa using hrest) (by decide) htaken (by decide) rfl
      exact absurd (htokens.trans (by rw [collect_nil rfl])) hsome
    | cons d rest =>
      have hbreak : isLineBreak d = true := stops d rfl
      obtain ⟨htokens, -⟩ :=
        collect_comment index hrest (by decide) (scan_line_stops inside hbreak _) (by decide) rfl
      refine ⟨htokens, fun blank back hparts hback hblank => ?_⟩
      cases blank with
      | nil =>
        obtain rfl : d :: rest = back := hparts
        rw [isLineBreak_iff] at hbreak
        simp only [List.mem_cons, List.not_mem_nil, or_false] at hbreak
        rcases hbreak with rfl | rfl <;> exact absurd (hback _ rfl) (by decide)
      | cons d' blank =>
        obtain ⟨rfl, -⟩ := List.cons.inj hparts
        exact .line inside (hregion rfl) ⟨_, rfl, hbreak⟩ hblank
  · obtain ⟨rfl, -⟩ := Prod.mk.inj ((scan_block_closes hcloses rest).symm.trans hscan)
    obtain ⟨htokens, -⟩ :=
      collect_comment index hrest (by decide) (scan_block_closes hcloses _) (by decide) rfl
    exact ⟨htokens, fun blank back _ _ hblank => .comment hcloses hblank⟩

/-- A text without tokens is blank, if a bracket behind it is one and no line comment in it opens or
closes a region. -/
theorem isBlank_of_tokens (index index' : LineIndex) (s s' : Scanner)
    (hnone : (collect index s).tokens = []) (hsilent : (collect index s).reports = [])
    (hrest' : s'.rest = s.rest ++ ['(']) (hsome : (collect index' s').tokens ≠ [])
    (hregion : KeepsRegion s.rest) : IsBlank s.rest := by
  -- On the length of what is left. The bracket is still scanned behind each comment, so that no
  -- comment runs to the end.
  induction hn : s.rest.length using Nat.strong_induction_on generalizing s s' with
  | _ n ih =>
  cases hrest : s.rest with
  | nil => exact .nil
  | cons c cs =>
  rw [hrest] at hregion hrest'
  cases hc : isSeparator c with
  | true =>
    rw [collect_separator hrest hc] at hnone hsilent
    rw [collect_separator hrest' hc] at hsome
    have hmore := hregion.behind_separator hc
    exact .separator hc (ih cs.length (by rw [← hn, hrest]; simp) _ _ hnone hsilent rfl hsome hmore rfl)
  | false =>
  obtain ⟨lexeme, text, rest, hscan, rfl, hwhole, hshort⟩ := exists_lexeme hrest hc hsilent
  cases htoken : token? lexeme (c :: text) with
  | some found =>
    obtain ⟨htokens, -⟩ := collect_token index hrest hc hscan hwhole htoken
    rw [htokens] at hnone
    cases hnone
  | none =>
    obtain ⟨htokens, hreports⟩ := collect_comment index hrest hc hscan hwhole htoken
    obtain ⟨hfirst, hmore⟩ := hregion.behind_lexeme hc hscan
    obtain ⟨htokens', hblank⟩ :=
      comment_before_bracket index' (by simpa using hrest') hc hscan hwhole htoken hsome hfirst
    rw [htokens] at hnone
    rw [hreports] at hsilent
    rw [htokens'] at hsome
    exact hblank rest [] (List.append_nil rest).symm nofun
      (ih _ (hn ▸ hshort) _ _ hnone hsilent rfl hsome hmore rfl)

/-- **A text of one name** is a name with blanks around it, if a bracket behind it is a second token
and no line comment in it opens or closes a region. -/
theorem isNameText_of_tokens (index index' : LineIndex) (s s' : Scanner) {token : Token}
    (hone : (collect index s).tokens = [token]) (hkind : token.kind = .identifier)
    (hsilent : (collect index s).reports = []) (hrest' : s'.rest = s.rest ++ ['('])
    (htwo : (collect index' s').tokens.length = 2)
    (hregion : KeepsRegion s.rest) :
    IsNameText s.rest token.value.toList := by
  induction hn : s.rest.length using Nat.strong_induction_on generalizing s s' with
  | _ n ih =>
  cases hrest : s.rest with
  | nil =>
    rw [collect_nil hrest] at hone
    cases hone
  | cons c cs =>
  rw [hrest] at hregion hrest'
  cases hc : isSeparator c with
  | true =>
    rw [collect_separator hrest hc] at hone hsilent
    rw [collect_separator hrest' hc] at htwo
    obtain ⟨before, after, rfl, hbefore, hmore⟩ :=
      ih cs.length (by rw [← hn, hrest]; simp) _ _ hone hsilent rfl htwo
        (hregion.behind_separator hc) rfl
    exact ⟨c :: before, after, rfl, .separator hc hbefore, hmore⟩
  | false =>
  obtain ⟨lexeme, text, rest, hscan, rfl, hwhole, hshort⟩ := exists_lexeme hrest hc hsilent
  obtain ⟨hfirst, hmore⟩ := hregion.behind_lexeme hc hscan
  cases htoken : token? lexeme (c :: text) with
  | some found =>
    obtain ⟨kind, value⟩ := found
    obtain ⟨htokens, hreports⟩ := collect_token index hrest hc hscan hwhole htoken
    rw [htokens] at hone
    rw [hreports] at hsilent
    obtain ⟨rfl, hnone⟩ := List.cons.inj hone
    obtain rfl : kind = .identifier := hkind
    obtain ⟨rfl, rfl⟩ := scan_identifier htoken
    have hname := isName_of_scan hscan
    have hvalue : (stamp index s.remarks .identifier (c :: text) (s.spanOf (c :: text))).value.toList
        = c :: text := String.toList_ofList
    -- The name is in front of a stop with the bracket, too.
    obtain ⟨x, back, hback, hx⟩ : ∃ x back, rest ++ ['('] = x :: back ∧ isStop x = true := by
      cases rest with
      | nil => exact ⟨'(', [], rfl, by decide⟩
      | cons x rest =>
        have hbehind : (s.behind (.plain .identifier) (c :: text) (x :: rest)).rest.head? = some x := rfl
        exact ⟨x, rest ++ ['('], rfl, isStop_of_head index (by rw [hnone]; nofun) hbehind⟩
    have hstays : scan c (text ++ (rest ++ ['('])) = (.plain .identifier, text.length) := by
      rw [hback]
      exact scan_name hname hx back
    obtain ⟨htokens', -⟩ := collect_token index' (by simpa using hrest') hc hstays (by decide) htoken
    have hsome : (collect index' (s'.behind (.plain .identifier) (c :: text)
        (rest ++ ['(']))).tokens ≠ [] := by
      intro hnil
      rw [htokens', hnil] at htwo
      cases htwo
    rw [hvalue]
    exact ⟨[], rest, rfl, .nil, hname,
      isBlank_of_tokens index index' _ _ hnone hsilent rfl hsome hmore⟩
  | none =>
    obtain ⟨htokens, hreports⟩ := collect_comment index hrest hc hscan hwhole htoken
    have hsome : (collect index' s').tokens ≠ [] := by
      intro hnil
      rw [hnil] at htwo
      cases htwo
    obtain ⟨htokens', hblank⟩ :=
      comment_before_bracket index' (by simpa using hrest') hc hscan hwhole htoken hsome hfirst
    rw [htokens] at hone
    rw [hreports] at hsilent
    rw [htokens'] at htwo
    obtain ⟨before, after, hparts, hbefore, hname, hafter⟩ :=
      ih _ (hn ▸ hshort) _ _ hone hsilent rfl htwo hmore rfl
    have hstarts : ∀ d ∈ (token.value.toList ++ after).head?, isSeparator d = false := by
      obtain ⟨d, word, hword, hd⟩ := hname.exists_cons
      rw [hword]
      rintro _ ⟨⟩
      exact hd
    refine ⟨c :: (text ++ before), after, ?_, hblank before _ hparts hstarts hbefore, hname, hafter⟩
    rw [show rest = _ from hparts]
    simp

/-! ## Strings

A silent text closes its strings on their lines, and a token has what stands between the quotes. -/

/-- **A string stands between quotes.** -/
theorem standsAt_string (index : LineIndex) (s : Scanner) {passed : List Char}
    (hpassed : byteLength passed = s.offset) (hsilent : (collect index s).reports = []) {token : Token}
    (hmem : token ∈ (collect index s).tokens) (hkind : token.kind = .string) :
    StandsAt (passed ++ s.rest) token.range.span.start ('"' :: (token.value.toList ++ ['"']))
      ∧ token.range.span.stop
        = token.range.span.start + byteLength ('"' :: (token.value.toList ++ ['"'])) := by
  -- On the length of what is left, with `passed` for what stands in front of it.
  induction hn : s.rest.length using Nat.strong_induction_on generalizing s passed with
  | _ n ih =>
  cases hrest : s.rest with
  | nil =>
    rw [collect_nil hrest] at hmem
    cases hmem
  | cons c cs =>
  cases hc : isSeparator c with
  | true =>
    rw [collect_separator hrest hc] at hmem hsilent
    have hbehind : byteLength (passed ++ [c]) = s.offset + c.utf8Size := by simp [hpassed]
    simpa using ih cs.length (by rw [← hn, hrest]; simp) _ hbehind hsilent hmem rfl
  | false =>
  obtain ⟨lexeme, text, rest, hscan, rfl, hwhole, hshort⟩ := exists_lexeme hrest hc hsilent
  have hbehind : byteLength (passed ++ c :: text) = (s.behind lexeme (c :: text) rest).offset := by
    simp [hpassed, Scanner.behind]
  cases htoken : token? lexeme (c :: text) with
  | none =>
    obtain ⟨htokens, hreports⟩ := collect_comment index hrest hc hscan hwhole htoken
    have hmore := ih _ (hn ▸ hshort) _ hbehind (hreports ▸ hsilent) (htokens ▸ hmem) rfl
    simpa [Scanner.behind] using hmore
  | some found =>
    obtain ⟨kind, value⟩ := found
    obtain ⟨htokens, hreports⟩ := collect_token index hrest hc hscan hwhole htoken
    rw [htokens] at hmem
    rcases List.mem_cons.1 hmem with rfl | hmem
    · obtain rfl : kind = .string := hkind
      obtain ⟨rfl, -, hbody⟩ := scan_string hscan hwhole (by rwa [List.take_left])
      rw [List.take_left] at hbody
      subst hbody
      have hvalue : (stamp index s.remarks .string value
          (s.spanOf ('"' :: (value ++ ['"'])))).value.toList = value := String.toList_ofList
      rw [hvalue]
      exact ⟨⟨passed, rest, rfl, hpassed⟩, rfl⟩
    · have hmore := ih _ (hn ▸ hshort) _ hbehind (hreports ▸ hsilent) hmem rfl
      simpa [Scanner.behind] using hmore

end TokenList

end StoryCheck
