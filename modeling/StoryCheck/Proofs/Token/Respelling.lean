import Mathlib.Data.List.Forall2
import StoryCheck.Proofs.Text.Pieces
import StoryCheck.Proofs.Token.Names

/-!
# Texts with names and strings put in

What becomes of the tokens of a text when other names are put in place of some names, and other
strings between the quotes of some strings. A name that has a bracket behind it and nothing before
it that runs on can be replaced by any name, and blanks may come with it; a string can be replaced
by any characters that neither close nor break it. All other tokens stay what they are.

* **`IsNameText`** — a name with blanks around it.
* **`Respells`** — tokens, patches of their text, and the tokens that are expected then.
* **`respells_collect`** — they are the tokens of the text with the patches.
-/

namespace StoryCheck

open Lexeme Scanner

/-! ## Blanks

Around a name in a text there may be separators and comments. They are harmless if they leave the
region as it is and are closed before what follows. -/

/-- What a comment that opens or closes a region starts with. -/
def regionLeads : List (List Char) := ["//REGION".toList, "//END_REGION".toList]

/-- The line comments of a text, in order. What looks like one in a string or in a block comment is
none. -/
def lineComments (text : List Char) : List (List Char) :=
  match text with
  | [] => []
  | c :: cs =>
    if isSeparator c then lineComments cs
    else
      let (lexeme, more) := scan c cs
      (if lexeme = .lineComment then [c :: cs.take more] else []) ++ lineComments (cs.drop more)
termination_by text.length
decreasing_by
  · simp
  · simp only [List.length_drop, List.length_cons]
    omega

/-- A separator in front adds no comment. -/
theorem lineComments_separator {c : Char} (hc : isSeparator c = true) (rest : List Char) :
    lineComments (c :: rest) = lineComments rest := by
  rw [lineComments, if_pos hc]

/-- A lexeme in front adds itself if it is a line comment; what stands behind it is not touched. -/
theorem lineComments_lexeme {c : Char} {text rest : List Char} {lexeme : Lexeme}
    (hc : isSeparator c = false) (hscan : scan c (text ++ rest) = (lexeme, text.length)) :
    lineComments (c :: (text ++ rest))
      = (if lexeme = .lineComment then [c :: text] else []) ++ lineComments rest := by
  rw [lineComments, if_neg (by simp [hc]), hscan]
  simp only [List.take_left, List.drop_left]

example : lineComments "/* //REGION a */ Bar // one\n".toList = ["// one".toList] := by decide +kernel

/-- No line comment of a text opens or closes a region. -/
def KeepsRegion (text : List Char) : Prop :=
  ∀ comment ∈ lineComments text, ∀ lead ∈ regionLeads, ¬ lead <+: comment

instance (text : List Char) : Decidable (KeepsRegion text) :=
  inferInstanceAs (Decidable (∀ comment ∈ lineComments text, ∀ lead ∈ regionLeads, ¬ lead <+: comment))

namespace KeepsRegion

/-- It goes on behind a separator. -/
theorem behind_separator {c : Char} {rest : List Char} (h : KeepsRegion (c :: rest))
    (hc : isSeparator c = true) : KeepsRegion rest := by
  rwa [KeepsRegion, lineComments_separator hc] at h

/-- It goes on behind a lexeme, and the lexeme itself is about no region. -/
theorem behind_lexeme {c : Char} {text rest : List Char} {lexeme : Lexeme}
    (h : KeepsRegion (c :: (text ++ rest))) (hc : isSeparator c = false)
    (hscan : scan c (text ++ rest) = (lexeme, text.length)) :
    (lexeme = .lineComment → ∀ lead ∈ regionLeads, ¬ lead <+: c :: text) ∧ KeepsRegion rest := by
  rw [KeepsRegion, lineComments_lexeme hc hscan] at h
  refine ⟨fun hline => ?_, fun comment hmem => h comment (List.mem_append_right _ hmem)⟩
  rw [if_pos hline] at h
  exact h (c :: text) (List.mem_append_left _ (List.mem_singleton_self _))

end KeepsRegion

/-- Characters between tokens that leave the region as it is and take nothing along that is put
behind them: separators, and comments that are closed or have a line break behind them. -/
inductive IsBlank : List Char → Prop
  | nil : IsBlank []
  | separator {c : Char} {cs : List Char} (kind : isSeparator c = true) (more : IsBlank cs) :
    IsBlank (c :: cs)
  | comment {body cs : List Char} (closes : commentEnd? body = some body.length)
    (more : IsBlank cs) : IsBlank ('/' :: '*' :: (body ++ cs))
  | line {body cs : List Char} (inside : ∀ c ∈ body, isLineBreak c = false)
    (plain : ∀ lead ∈ regionLeads, ¬ lead <+: '/' :: '/' :: body)
    (stops : ∃ c ∈ cs.head?, isLineBreak c = true) (more : IsBlank cs) :
    IsBlank ('/' :: '/' :: (body ++ cs))

/-- A name with blanks around it. -/
def IsNameText (text name : List Char) : Prop :=
  ∃ before after, text = before ++ (name ++ after) ∧ IsBlank before ∧ IsName name ∧ IsBlank after

theorem prefix_of_afterLead? {lead text rest : List Char} (h : afterLead? lead text = some rest) :
    lead <+: text := by
  fun_induction afterLead? lead text with
  | case1 => exact List.nil_prefix
  | case2 => cases h
  | case3 lead a text ih => exact (List.prefix_cons_inj a).2 (ih h)
  | case4 => cases h

/-- A comment that is about no region leaves it as it is. -/
theorem Remarks.region_addLine {text : List Char} (h : ∀ lead ∈ regionLeads, ¬ lead <+: text)
    (remarks : Remarks) : (remarks.addLine text).region = remarks.region := by
  have hnone (lead : List Char) (hlead : lead ∈ regionLeads) : afterLead? lead text = none :=
    Option.eq_none_iff_forall_ne_some.2 fun _ hrest => h lead hlead (prefix_of_afterLead? hrest)
  rw [addLine, hnone _ List.mem_cons_self, hnone _ (List.mem_cons_of_mem _ List.mem_cons_self)]
  cases hcomment : remarks.comment <;> simp

/-! ## Steps

One step of the scanner, on a text that is cut into the lexeme and what is behind it. -/

namespace Scanner

/-- The place behind a lexeme. -/
def behind (s : Scanner) (lexeme : Lexeme) (text rest : List Char) : Scanner :=
  { rest, offset := s.offset + byteLength text, remarks := remarksAfter s.remarks lexeme text }

/-- The span of a lexeme. -/
def spanOf (s : Scanner) (text : List Char) : Span := ⟨s.offset, s.offset + byteLength text⟩

end Scanner

namespace TokenList

variable {index : LineIndex} {s : Scanner} {c : Char} {text rest gap : List Char} {lexeme : Lexeme}
  {kind : TokenKind} {value : List Char}

theorem collect_separator (h : s.rest = c :: rest) (hc : isSeparator c = true) :
    collect index s = collect index { s with rest, offset := s.offset + c.utf8Size } := by
  rw [collect_cons h, step, if_pos hc]
  rfl

theorem step_lexeme (hc : isSeparator c = false)
    (hscan : scan c (text ++ rest) = (lexeme, text.length)) :
    step index s c (text ++ rest) =
      { token := (token? lexeme (c :: text)).map fun (kind, value) =>
          stamp index s.remarks kind value (s.spanOf (c :: text))
        reports := complaint lexeme (s.spanOf (c :: text))
        scanner := s.behind lexeme (c :: text) rest } := by
  rw [step, if_neg (by simp [hc]), hscan]
  simp only [List.take_left, List.drop_left]
  rfl

/-- The character in front, a separator or the start of a lexeme. -/
theorem exists_lexeme {s : Scanner} {c : Char} {cs : List Char} (hrest : s.rest = c :: cs)
    (hc : isSeparator c = false) (hsilent : (collect index s).reports = []) :
    ∃ lexeme text rest, scan c (text ++ rest) = (lexeme, text.length) ∧ cs = text ++ rest
      ∧ lexeme ∉ damaged ∧ (s.behind lexeme (c :: text) rest).rest.length < s.rest.length := by
  have hscan : scan c (cs.take (scan c cs).2 ++ cs.drop (scan c cs).2)
      = ((scan c cs).1, (cs.take (scan c cs).2).length) := by
    rw [List.take_append_drop, List.length_take_of_le (scan_le c cs)]
  refine ⟨_, _, _, hscan, (List.take_append_drop ..).symm, ?_, ?_⟩
  · rw [collect_cons (hrest.trans (congrArg _ (List.take_append_drop ..).symm)),
      step_lexeme hc hscan] at hsilent
    exact not_mem_damaged (List.append_eq_nil_iff.1 hsilent).1
  · simp only [hrest, Scanner.behind, List.length_cons, List.length_drop]
    omega

theorem collect_comment (index : LineIndex) (h : s.rest = c :: (text ++ rest)) (hc : isSeparator c = false)
    (hscan : scan c (text ++ rest) = (lexeme, text.length)) (hwhole : lexeme ∉ damaged)
    (hnone : token? lexeme (c :: text) = none) :
    (collect index s).tokens = (collect index (s.behind lexeme (c :: text) rest)).tokens
      ∧ (collect index s).reports = (collect index (s.behind lexeme (c :: text) rest)).reports := by
  rw [collect_cons h, step_lexeme hc hscan, hnone]
  exact ⟨rfl, congrArg (· ++ _) (complaint_of_whole hwhole _)⟩

theorem collect_token (index : LineIndex) (h : s.rest = c :: (text ++ rest)) (hc : isSeparator c = false)
    (hscan : scan c (text ++ rest) = (lexeme, text.length)) (hwhole : lexeme ∉ damaged)
    (hsome : token? lexeme (c :: text) = some (kind, value)) :
    (collect index s).tokens
        = stamp index s.remarks kind value (s.spanOf (c :: text))
          :: (collect index (s.behind lexeme (c :: text) rest)).tokens
      ∧ (collect index s).reports = (collect index (s.behind lexeme (c :: text) rest)).reports := by
  rw [collect_cons h, step_lexeme hc hscan, hsome]
  exact ⟨rfl, congrArg (· ++ _) (complaint_of_whole hwhole _)⟩

/-- Blanks are passed over, and leave the region as it is. -/
theorem collect_blank (index : LineIndex) (hgap : IsBlank gap) (h : s.rest = gap ++ rest) :
    ∃ s' : Scanner, s'.rest = rest ∧ s'.remarks.region = s.remarks.region
      ∧ (collect index s).tokens = (collect index s').tokens
      ∧ (collect index s).reports = (collect index s').reports := by
  induction hgap generalizing s with
  | nil => exact ⟨s, h, rfl, rfl, rfl⟩
  | separator kind more ih =>
    rw [collect_separator h kind]
    exact ih (s := { s with rest := _, offset := _ }) rfl
  | @comment body cs closes more ih =>
    have hrest : s.rest = '/' :: (('*' :: body) ++ (cs ++ rest)) := by simp [h]
    obtain ⟨htokens, hreports⟩ :=
      collect_comment index hrest (by decide) (scan_block_closes closes _) (by decide) rfl
    rw [htokens, hreports]
    exact ih (s := s.behind (.blockComment true) _ _) rfl
  | @line body cs inside plain stops more ih =>
    obtain ⟨d, hd, hbreak⟩ := stops
    obtain ⟨back, rfl⟩ := List.head?_eq_some_iff.1 hd
    have hrest : s.rest = '/' :: (('/' :: body) ++ d :: (back ++ rest)) := by simp [h]
    obtain ⟨htokens, hreports⟩ :=
      collect_comment index hrest (by decide) (scan_line_stops inside hbreak _) (by decide) rfl
    obtain ⟨s', hrest', hregion, hmore⟩ := ih (s := s.behind .lineComment _ _) rfl
    rw [htokens, hreports]
    exact ⟨s', hrest', hregion.trans (Remarks.region_addLine plain _), hmore⟩

end TokenList

/-! ## Respelling

What is allowed to change: names in front of a bracket, and strings. All other tokens stay, and so
do the kinds of all. -/

/-- A token that counts as another: its kind, value and region are the same. So is its comment,
unless it is a name or an opening bracket, whose comments nobody asks for. -/
structure Token.CountsAs (token other : Token) : Prop where
  kind : other.kind = token.kind
  value : other.value = token.value
  region : other.region = token.region
  comment : token.kind ∉ [.identifier, .lParen] → other.comment = token.comment

/-- Tokens behind one of a kind, patches of their text, and the tokens with the new values. -/
inductive Respells : (before : TokenKind) → List Token → List Patch → List Token → Prop
  | nil {before : TokenKind} : Respells before [] [] []
  | keep {before : TokenKind} {token : Token} {tokens respelled : List Token}
    {patches : List Patch} (more : Respells token.kind tokens patches respelled) :
    Respells before (token :: tokens) patches (token :: respelled)
  /-- A name in front of a bracket gives way to another. -/
  | name {before : TokenKind} {token bracket : Token} {tokens respelled : List Token}
    {patches : List Patch} {chars name : List Char} (ends : before ∉ openKinds)
    (kind : token.kind = .identifier) (opens : bracket.kind = .lParen)
    (fits : IsNameText chars name) (more : Respells .lParen tokens patches respelled) :
    Respells before (token :: bracket :: tokens) (⟨token.range.span, chars⟩ :: patches)
      ({ token with value := String.ofList name } :: bracket :: respelled)
  /-- What stands between the quotes of a string gives way to other characters. -/
  | string {before : TokenKind} {token : Token} {tokens respelled : List Token}
    {patches : List Patch} {chars : List Char} (kind : token.kind = .string)
    (fits : ∀ c ∈ chars, c ∉ ['"', '\\', '\r', '\n'])
    (more : Respells .string tokens patches respelled) :
    Respells before (token :: tokens)
      (⟨⟨token.range.span.start + 1, token.range.span.stop - 1⟩, chars⟩ :: patches)
      ({ token with value := String.ofList chars } :: respelled)

/-- Whether a patch stays in a token, from its start or from behind its quote on. -/
def Patch.IsIn (patch : Patch) (token : Token) : Prop :=
  token.range.span.start ≤ patch.span.start ∧ patch.span.start ≤ token.range.span.start + 1
    ∧ patch.span.stop ≤ token.range.span.stop

namespace Respells

variable {before : TokenKind} {tokens respelled : List Token} {patches : List Patch}

/-- Tokens that stay what they are. -/
theorem keepAll (front : List Token) (more : ∀ kind, Respells kind tokens patches respelled) :
    Respells before (front ++ tokens) patches (front ++ respelled) := by
  induction front generalizing before with
  | nil => exact more before
  | cons token front ih => exact .keep ih

theorem within (h : Respells before tokens patches respelled) :
    ∀ patch ∈ patches, ∃ token ∈ tokens, patch.IsIn token := by
  induction h with
  | nil => nofun
  | keep _ ih =>
    intro patch hmem
    obtain ⟨other, hother, hin⟩ := ih patch hmem
    exact ⟨other, List.mem_cons_of_mem _ hother, hin⟩
  | @name _ token _ _ _ _ _ _ _ _ _ _ _ ih =>
    refine List.forall_mem_cons.2 ⟨⟨token, by simp, by simp [Patch.IsIn]⟩, fun patch hmem => ?_⟩
    obtain ⟨other, hother, hin⟩ := ih patch hmem
    exact ⟨other, List.mem_cons_of_mem _ (List.mem_cons_of_mem _ hother), hin⟩
  | @string _ token _ _ _ _ _ _ _ ih =>
    refine List.forall_mem_cons.2 ⟨⟨token, by simp, by simp [Patch.IsIn]⟩, fun patch hmem => ?_⟩
    obtain ⟨other, hother, hin⟩ := ih patch hmem
    exact ⟨other, List.mem_cons_of_mem _ hother, hin⟩

/-- Where tokens stand one behind the other, so do the patches. -/
theorem ordered (h : Respells before tokens patches respelled)
    (hroom : ∀ token ∈ tokens, token.range.span.start < token.range.span.stop)
    (hordered : tokens.Pairwise fun a b => a.range.span.stop ≤ b.range.span.start) :
    patches.Pairwise fun a b => a.span.start ≤ b.span.start ∧ a.span.stop ≤ b.span.start := by
  -- A patch stands in a token, and the patches after it stand in tokens behind that one.
  have hfirst {token : Token} {tokens : List Token} {patch : Patch} {patches : List Patch}
      (hin : patch.IsIn token) (hroom : token.range.span.start < token.range.span.stop)
      (hbehind : ∀ other ∈ tokens, token.range.span.stop ≤ other.range.span.start)
      (hwithin : ∀ patch ∈ patches, ∃ token ∈ tokens, patch.IsIn token) :
      ∀ other ∈ patches,
        patch.span.start ≤ other.span.start ∧ patch.span.stop ≤ other.span.start := by
    intro other hmem
    obtain ⟨next, hnext, hother⟩ := hwithin other hmem
    have hle := hbehind next hnext
    unfold Patch.IsIn at hin hother
    omega
  induction h with
  | nil => exact .nil
  | keep _ ih => exact ih (List.forall_mem_cons.1 hroom).2 (List.pairwise_cons.1 hordered).2
  | name _ _ _ _ more ih =>
    obtain ⟨hhead, htail⟩ := List.pairwise_cons.1 hordered
    obtain ⟨htoken, hrest⟩ := List.forall_mem_cons.1 hroom
    obtain ⟨-, hlast⟩ := List.forall_mem_cons.1 hrest
    exact .cons (hfirst (by simp [Patch.IsIn]) htoken (List.forall_mem_cons.1 hhead).2 more.within)
      (ih hlast (List.pairwise_cons.1 htail).2)
  | string _ _ more ih =>
    obtain ⟨hhead, htail⟩ := List.pairwise_cons.1 hordered
    obtain ⟨htoken, hrest⟩ := List.forall_mem_cons.1 hroom
    exact .cons (hfirst (by simp [Patch.IsIn]) htoken hhead more.within) (ih hrest htail)

end Respells

namespace Lexeme

variable {c x : Char} {cs rest rest' : List Char} {n : Nat}

theorem Agree.head?_eq (h : Agree rest rest') : rest'.head? = rest.head? := by
  cases h with
  | refl => rfl
  | stop hx front back back' => exact head?_stop front back' back _

/-- A string without anything that closes or breaks it goes to its quote. -/
theorem stringEnd?_plain_append {chars : List Char} (hplain : ∀ c ∈ chars, c ∉ ['"', '\\', '\r', '\n'])
    (rest : List Char) : stringEnd? false (chars ++ '"' :: rest) = some (chars.length + 1, false) := by
  induction chars with
  | nil => rfl
  | cons c chars ih =>
    have hc := hplain c List.mem_cons_self
    simp only [List.mem_cons, List.not_mem_nil, or_false, not_or] at hc
    have hbreak : isLineBreak c = false := by simp [isLineBreak, hc]
    rw [List.cons_append, stringEnd?_plain hc.1 hc.2.1, hbreak, Bool.or_false,
      ih fun d hd => hplain d (List.mem_cons_of_mem _ hd)]
    rfl

end Lexeme

namespace Scanner

variable {remarks other : Remarks} {lexeme : Lexeme} {text : List Char}

theorem region_remarksAfter (h : other.region = remarks.region) :
    (remarksAfter other lexeme text).region = (remarksAfter remarks lexeme text).region := by
  cases lexeme with
  | lineComment =>
    simp only [remarksAfter, Remarks.addLine]
    split
    · rfl
    · split
      · rfl
      · rw [show other.region = remarks.region from h]
        cases other.comment <;> cases remarks.comment <;> rfl
  | _ => exact h

theorem comment_remarksAfter (h : other.comment = remarks.comment) :
    (remarksAfter other lexeme text).comment = (remarksAfter remarks lexeme text).comment := by
  cases lexeme with
  | lineComment =>
    simp only [remarksAfter, Remarks.addLine]
    split
    · exact h
    · split
      · exact h
      · rw [h]
        cases remarks.comment <;> rfl
  | _ => rfl

/-- A token takes the comment. -/
theorem comment_remarksAfter_token {found : TokenKind × List Char}
    (h : token? lexeme text = some found) : (remarksAfter remarks lexeme text).comment = none := by
  cases lexeme with
  | lineComment => cases h
  | blockComment => cases h
  | _ => rfl

end Scanner

/-! ## Runs

The text is gone through from the end to the start. Each step asks whether the lexeme in front stays
what it is before the new rest, which depends on how that starts. -/

/-- What a place in a text comes to with patches: the rest of the text is another then, in which the
respelled tokens are found, and which goes together with what stands before as the old one did. -/
structure RespelledAt (index : LineIndex) (s : Scanner) (before : TokenKind) (patches : List Patch)
    (respelled : List Token) (rest : List Char) : Prop where
  text : ∀ passed, byteLength passed = s.offset →
    Patch.applyAll patches (passed ++ s.rest) = passed ++ rest
  joins : Agree s.rest rest ∨ before ∉ openKinds ∧ ∃ w ∈ s.rest.head?, Guid.isWordChar w = true
  tokens : ∀ (index' : LineIndex) (s' : Scanner), s'.rest = rest →
    s'.remarks.region = s.remarks.region →
    (s'.remarks.comment = s.remarks.comment
      ∨ ∃ token ∈ (TokenList.collect index s).tokens.head?, token.kind = .lParen) →
    (TokenList.collect index' s').reports = []
      ∧ List.Forall₂ Token.CountsAs respelled (TokenList.collect index' s').tokens

/-- What starts without a stop is a token, but no bracket. -/
theorem scan_of_not_stop {c : Char} (h : isStop c = false) (cs text : List Char) :
    ∃ found, token? (scan c cs).1 text = some found ∧ found.1 ≠ .lParen := by
  -- Numbers and words give tokens of their own; the only other character that is no stop is a
  -- hyphen.
  cases hnumber : startsNumber c cs with
  | true =>
    have hkind := scanNumber_kind (c :: cs)
    rw [scan_number hnumber]
    simp only [List.mem_cons, List.not_mem_nil, or_false] at hkind
    rcases hkind with hkind | hkind | hkind | hkind <;> rw [hkind] <;> exact ⟨_, rfl, by simp⟩
  | false =>
    cases hletter : isLetter c || c == '_' with
    | true =>
      rw [scan_word hnumber hletter]
      obtain ⟨kind, hmem, hkind⟩ := scanWord_kind (c :: cs)
      rw [hkind]
      exact ⟨_, rfl, ne_of_mem_of_not_mem hmem (by decide)⟩
    | false =>
      obtain ⟨hdigit, hhyphen⟩ := Bool.or_eq_false_iff.1 hnumber
      have hc : c = '-' := by
        have hword := Bool.or_eq_false_iff.1 hletter
        have halpha : c.isAlpha = false := hword.1
        simpa [isStop, Guid.isWordChar, Char.isAlphanum, halpha, hdigit, hword.2] using h
      subst hc
      rw [scan_hyphen hnumber]
      exact ⟨_, rfl, by simp⟩

/-- What has a bracket for its first token, or no token at all, starts with a stop. -/
theorem TokenList.isStop_of_head (index : LineIndex) {s : Scanner} {c : Char}
    (h : ∀ token ∈ (collect index s).tokens.head?, token.kind = .lParen) (hhead : c ∈ s.rest.head?) :
    isStop c = true := by
  obtain ⟨cs, hrest⟩ := List.head?_eq_some_iff.1 hhead
  by_contra hstop
  rw [Bool.not_eq_true] at hstop
  have hc : isSeparator c = false := by
    by_contra hc
    rw [isStop_of_separator (by simpa using hc)] at hstop
    cases hstop
  obtain ⟨found, hfound, hother⟩ := scan_of_not_stop hstop cs (c :: cs.take (scan c cs).2)
  rw [collect_cons hrest, step, if_neg (by simp [hc])] at h
  simp only [hfound, Option.map_some, Option.toList_some, List.cons_append,
    List.head?_cons] at h
  exact hother (h _ rfl)

namespace RespelledAt

variable {index : LineIndex} {s : Scanner} {before : TokenKind} {patches : List Patch}
  {respelled : List Token} {c : Char} {text rest rest' : List Char} {lexeme : Lexeme}

/-- A lexeme stays what it is in front of the new rest of the text. -/
theorem joined (hscan : scan c (text ++ rest) = (lexeme, text.length)) (hwhole : lexeme ∉ damaged)
    (hkind : ∀ kind, lexeme = .plain kind → before = kind)
    (hjoins : Agree rest rest' ∨ before ∉ openKinds ∧ ∃ w ∈ rest.head?, Guid.isWordChar w = true) :
    scan c (text ++ rest') = (lexeme, text.length)
      ∧ Agree (c :: (text ++ rest)) (c :: (text ++ rest')) := by
  rcases hjoins with hagree | ⟨hends, hnext⟩
  · have hagree' : Agree ((text ++ rest).drop text.length) rest' := by rwa [List.drop_left]
    have hstays := scan_agree hscan hwhole hagree'
    rw [List.take_left] at hstays
    exact ⟨hstays, hagree.prepend (c :: text)⟩
  · obtain ⟨hstop, hstays⟩ := scan_closed hscan hwhole
      (fun kind hopen hplain => hends (hkind kind hplain ▸ hopen)) (by rwa [List.drop_left])
    have hstays := hstays rest'
    rw [List.take_left] at hstays
    exact ⟨hstays, .stop hstop [] _ _⟩

theorem separator (hrest : s.rest = c :: rest) (hc : isSeparator c = true)
    (h : RespelledAt index { s with rest, offset := s.offset + c.utf8Size } before patches respelled
      rest') : RespelledAt index s before patches respelled (c :: rest') where
  text passed hpassed := by
    have htext := h.text (passed ++ [c]) (by simp [hpassed])
    rw [hrest]
    simpa using htext
  joins := .inl (hrest ▸ .stop (isStop_of_separator hc) [] rest rest')
  tokens index' s' hrest' hregion hcomment := by
    rw [TokenList.collect_separator hrest hc] at hcomment
    rw [TokenList.collect_separator hrest' hc]
    exact h.tokens index' { s' with rest := rest', offset := _ } rfl hregion hcomment

theorem comment (hrest : s.rest = c :: (text ++ rest)) (hc : isSeparator c = false)
    (hscan : scan c (text ++ rest) = (lexeme, text.length)) (hwhole : lexeme ∉ damaged)
    (hnone : token? lexeme (c :: text) = none)
    (h : RespelledAt index (s.behind lexeme (c :: text) rest) before patches respelled rest') :
    RespelledAt index s before patches respelled (c :: (text ++ rest')) := by
  have hplain (kind : TokenKind) (hkind : lexeme = .plain kind) : before = kind := by
    rw [hkind] at hnone
    cases hnone
  obtain ⟨hstays, hagree⟩ := joined hscan hwhole hplain h.joins
  constructor
  · intro passed hpassed
    have htext := h.text (passed ++ c :: text) (by simp [hpassed, Scanner.behind])
    rw [hrest]
    simpa [Scanner.behind] using htext
  · exact .inl (hrest ▸ hagree)
  · intro index' s' hrest' hregion hcomment
    obtain ⟨htokens, -⟩ := TokenList.collect_comment index hrest hc hscan hwhole hnone
    obtain ⟨htokens', hreports'⟩ :=
      TokenList.collect_comment index' hrest' hc hstays hwhole hnone
    rw [htokens] at hcomment
    rw [htokens', hreports']
    exact h.tokens index' _ rfl (region_remarksAfter hregion)
      (hcomment.imp_left comment_remarksAfter)

theorem keep {kind : TokenKind} {value : List Char} (hrest : s.rest = c :: (text ++ rest))
    (hc : isSeparator c = false) (hscan : scan c (text ++ rest) = (lexeme, text.length))
    (hwhole : lexeme ∉ damaged) (hsome : token? lexeme (c :: text) = some (kind, value))
    (h : RespelledAt index (s.behind lexeme (c :: text) rest) kind patches respelled rest') :
    RespelledAt index s before patches
      (stamp index s.remarks kind value (s.spanOf (c :: text)) :: respelled)
      (c :: (text ++ rest')) := by
  have hplain (other : TokenKind) (hother : lexeme = .plain other) : kind = other := by
    rw [hother] at hsome
    exact (Prod.mk.inj (Option.some.inj hsome)).1.symm
  obtain ⟨hstays, hagree⟩ := joined hscan hwhole hplain h.joins
  constructor
  · intro passed hpassed
    have htext := h.text (passed ++ c :: text) (by simp [hpassed, Scanner.behind])
    rw [hrest]
    simpa [Scanner.behind] using htext
  · exact .inl (hrest ▸ hagree)
  · intro index' s' hrest' hregion hcomment
    obtain ⟨htokens, -⟩ := TokenList.collect_token index hrest hc hscan hwhole hsome
    obtain ⟨htokens', hreports'⟩ :=
      TokenList.collect_token index' hrest' hc hstays hwhole hsome
    rw [htokens] at hcomment
    rw [htokens', hreports']
    have hnext : (s'.behind lexeme (c :: text) rest').remarks.comment
        = (s.behind lexeme (c :: text) rest).remarks.comment :=
      (comment_remarksAfter_token hsome).trans (comment_remarksAfter_token hsome).symm
    obtain ⟨hreports, hmore⟩ :=
      h.tokens index' _ rfl (region_remarksAfter hregion) (.inl hnext)
    refine ⟨hreports, .cons ⟨rfl, rfl, hregion, fun hkind => ?_⟩ hmore⟩
    rcases hcomment with hcomment | ⟨token, htoken, hbracket⟩
    · exact hcomment
    · obtain rfl := Option.some.inj htoken
      have hbracket : kind = .lParen := hbracket
      exact absurd (by simp [stamp, hbracket]) hkind

theorem name {chars name : List Char} (hrest : s.rest = c :: (text ++ rest))
    (hscan : scan c (text ++ rest) = (.plain .identifier, text.length))
    (hends : before ∉ openKinds) (hfits : IsNameText chars name)
    (hbracket : ∃ bracket ∈
      (TokenList.collect index (s.behind (.plain .identifier) (c :: text) rest)).tokens.head?,
      bracket.kind = .lParen)
    (h : RespelledAt index (s.behind (.plain .identifier) (c :: text) rest) .identifier patches
      respelled rest') :
    RespelledAt index s before (⟨s.spanOf (c :: text), chars⟩ :: patches)
      ({ stamp index s.remarks .identifier (c :: text) (s.spanOf (c :: text)) with
          value := String.ofList name } :: respelled)
      (chars ++ rest') := by
  obtain ⟨gap, more, rfl, hgap, hname, hmore⟩ := hfits
  obtain ⟨d, word, rfl, hd⟩ := hname.exists_cons
  -- The new name is in front of a stop, as the old one was.
  obtain ⟨y, hy, hstop⟩ : ∃ y ∈ rest.head?, isStop y = true := by
    obtain ⟨bracket, hfirst, hkind⟩ := hbracket
    cases rest with
    | nil =>
      rw [TokenList.collect_nil rfl] at hfirst
      cases hfirst
    | cons y rest =>
      have hbehind : (s.behind (.plain .identifier) (c :: text) (y :: rest)).rest.head? = some y := rfl
      refine ⟨y, rfl, TokenList.isStop_of_head index (fun token hmem => ?_) hbehind⟩
      rwa [Option.some.inj (hmem.symm.trans hfirst)]
  have hy' : y ∈ rest'.head? := by
    rcases h.joins with hagree | ⟨-, w, hw, hword⟩
    · rwa [hagree.head?_eq]
    · obtain rfl := Option.some.inj (Eq.trans (Eq.symm hy) hw)
      rw [(isStop_iff.1 hstop).1] at hword
      cases hword
  obtain ⟨x, back, hback, hx⟩ : ∃ x back, more ++ rest' = x :: back ∧ isStop x = true := by
    cases hmore with
    | nil =>
      cases rest' with
      | nil => cases hy'
      | cons z rest' =>
        obtain rfl := Option.some.inj hy'
        exact ⟨z, rest', rfl, hstop⟩
    | separator kind more => exact ⟨_, _, rfl, isStop_of_separator kind⟩
    | comment closes more => exact ⟨_, _, rfl, by decide⟩
    | line inside plain stops more => exact ⟨_, _, rfl, by decide⟩
  constructor
  · intro passed hpassed
    have htext : Patch.applyAll patches (passed ++ c :: (text ++ rest))
        = passed ++ (c :: text ++ rest') := by
      simpa [Scanner.behind] using h.text (passed ++ c :: text) (by simp [hpassed, Scanner.behind])
    rw [hrest, Patch.applyAll, List.foldr_cons, ← Patch.applyAll, htext, Scanner.spanOf, ← hpassed,
      Patch.apply_append]
  · refine .inr ⟨hends, c, by rw [hrest]; rfl, ?_⟩
    exact isWordChar_of_start (starts_word (congrArg Prod.fst hscan)).2
  · intro index' s' hrest' hregion hcomment
    have hparts : s'.rest = gap ++ (d :: (word ++ (more ++ rest'))) := by simp [hrest']
    obtain ⟨s₁, hrest₁, hregion₁, htokens₁, hreports₁⟩ :=
      TokenList.collect_blank index' hgap hparts
    have hword : scan d (word ++ (more ++ rest')) = (.plain .identifier, word.length) := by
      rw [hback]
      exact scan_name hname hx back
    obtain ⟨htokens₂, hreports₂⟩ :=
      TokenList.collect_token index' hrest₁ hd hword (by decide) rfl
    obtain ⟨s₂, hrest₂, hregion₂, htokens₃, hreports₃⟩ :=
      TokenList.collect_blank index' (s := s₁.behind (.plain .identifier) (d :: word) _) hmore rfl
    have hregion₃ : s₂.remarks.region = s.remarks.region :=
      hregion₂.trans (hregion₁.trans hregion)
    obtain ⟨hreports, hmore⟩ := h.tokens index' s₂ hrest₂ hregion₃ (.inr hbracket)
    rw [hreports₁, hreports₂, hreports₃, htokens₁, htokens₂, htokens₃]
    exact ⟨hreports, .cons ⟨rfl, rfl, hregion₁.trans hregion, fun hkind =>
      absurd (by simp [stamp]) hkind⟩ hmore⟩

theorem string {body chars : List Char} (hrest : s.rest = '"' :: (body ++ ['"'] ++ rest))
    (hscan : scan '"' (body ++ ['"'] ++ rest) = (.quoted .closed, (body ++ ['"']).length))
    (hfits : ∀ c ∈ chars, c ∉ ['"', '\\', '\r', '\n'])
    (h : RespelledAt index (s.behind (.quoted .closed) ('"' :: (body ++ ['"'])) rest) .string patches
      respelled rest') :
    let span := s.spanOf ('"' :: (body ++ ['"']))
    RespelledAt index s before (⟨⟨span.start + 1, span.stop - 1⟩, chars⟩ :: patches)
      ({ stamp index s.remarks .string body span with value := String.ofList chars } :: respelled)
      ('"' :: (chars ++ ['"'] ++ rest')) := by
  intro span
  have hstays : scan '"' (chars ++ ['"'] ++ rest') = (.quoted .closed, (chars ++ ['"']).length) := by
    show scanString _ = _
    rw [List.append_assoc, List.singleton_append, scanString, stringEnd?_plain_append hfits]
    simp
  constructor
  · intro passed hpassed
    have htext : Patch.applyAll patches (passed ++ s.rest)
        = (passed ++ ['"']) ++ (body ++ ('"' :: rest')) := by
      rw [hrest]
      simpa [Scanner.behind] using
        h.text (passed ++ '"' :: (body ++ ['"'])) (by simp [hpassed, Scanner.behind])
    have hspan : (⟨span.start + 1, span.stop - 1⟩ : Span)
        = ⟨byteLength (passed ++ ['"']), byteLength (passed ++ ['"']) + byteLength body⟩ := by
      have hquote : '"'.utf8Size = 1 := by decide
      simp only [span, Scanner.spanOf, byteLength_append, byteLength_cons, byteLength_nil, hquote,
        hpassed]
      congr 1
      omega
    rw [Patch.applyAll, List.foldr_cons, ← Patch.applyAll, htext, hspan, Patch.apply_append]
    simp
  · exact .inl (hrest ▸ .stop (by decide) [] _ _)
  · intro index' s' hrest' hregion hcomment
    have hvalue (body : List Char) :
        token? (.quoted .closed) ('"' :: (body ++ ['"'])) = some (.string, body) := by
      simp [token?]
    obtain ⟨htokens, -⟩ :=
      TokenList.collect_token index hrest (by decide) hscan (by decide) (hvalue body)
    obtain ⟨htokens', hreports'⟩ :=
      TokenList.collect_token index' hrest' (by decide) hstays (by decide) (hvalue chars)
    rw [htokens] at hcomment
    rw [htokens', hreports']
    obtain ⟨hreports, hmore⟩ :=
      h.tokens index' (s'.behind (.quoted .closed) ('"' :: (chars ++ ['"'])) rest') rfl hregion
        (.inl rfl)
    refine ⟨hreports, .cons ⟨rfl, rfl, hregion, fun _ => ?_⟩ hmore⟩
    rcases hcomment with hcomment | ⟨token, htoken, hbracket⟩
    · exact hcomment
    · obtain rfl := Option.some.inj htoken
      cases hbracket

end RespelledAt

/-- A string that ends well stands between quotes. -/
theorem Lexeme.scan_string {c : Char} {cs value : List Char} {lexeme : Lexeme} {n : Nat}
    (hscan : scan c cs = (lexeme, n)) (hwhole : lexeme ∉ damaged)
    (htoken : token? lexeme (c :: cs.take n) = some (.string, value)) :
    c = '"' ∧ lexeme = .quoted .closed ∧ cs.take n = value ++ ['"'] := by
  have hcovers := covers_scan c cs
  rw [hscan, Covers, htoken] at hcovers
  have hc : c = '"' := by
    dsimp only at hcovers
    generalize hpiece : c :: cs.take n = piece at hcovers
    cases hcovers with
    | plain other => exact absurd (by decide) other
    | closed => exact (List.cons.inj hpiece).1
    | unclosed => exact (List.cons.inj hpiece).1
  subst hc
  refine ⟨rfl, ?_⟩
  have hstring : scanString cs = (lexeme, n) := hscan
  unfold scanString at hstring
  cases hend : stringEnd? false cs with
  | none =>
    rw [hend] at hstring
    obtain ⟨rfl, -⟩ := Prod.mk.inj hstring
    exact absurd (by decide) hwhole
  | some found =>
    obtain ⟨m, broken⟩ := found
    rw [hend] at hstring
    obtain ⟨rfl, rfl⟩ := Prod.mk.inj hstring
    cases broken with
    | true => exact absurd (by decide) hwhole
    | false =>
      obtain ⟨body, htake, -⟩ := stringEnd?_eq_some hend
      have hvalue : body = value := by simpa [token?, htake] using htoken
      exact ⟨rfl, hvalue ▸ htake⟩

/-- A name is all of its word. -/
theorem Lexeme.scan_identifier {lexeme : Lexeme} {text value : List Char}
    (htoken : token? lexeme text = some (.identifier, value)) :
    lexeme = .plain .identifier ∧ value = text := by
  unfold token? at htoken
  split at htoken
  all_goals cases htoken
  exact ⟨rfl, rfl⟩

namespace TokenList

/-- **With patches at names and strings, a text has the respelled tokens.** -/
theorem respells_collect (index : LineIndex) (s : Scanner) {before : TokenKind}
    {patches : List Patch} {respelled : List Token}
    (h : Respells before (collect index s).tokens patches respelled)
    (hsilent : (collect index s).reports = []) :
    ∃ rest, RespelledAt index s before patches respelled rest := by
  induction hn : s.rest.length using Nat.strong_induction_on
    generalizing s before patches respelled with
  | _ n ih =>
  cases hrest : s.rest with
  | nil =>
    rw [collect_nil hrest] at h
    cases h
    refine ⟨[], fun passed _ => ?_, .inl (hrest ▸ .refl []), fun index' s' hrest' _ _ => ?_⟩
    · rw [hrest]
      rfl
    · rw [collect_nil hrest']
      exact ⟨rfl, .nil⟩
  | cons c cs =>
  cases hc : isSeparator c with
  | true =>
    rw [collect_separator hrest hc] at h hsilent
    obtain ⟨rest', hmore⟩ := ih cs.length (by rw [← hn, hrest]; simp) _ h hsilent rfl
    exact ⟨_, .separator hrest hc hmore⟩
  | false =>
  obtain ⟨lexeme, text, rest, hscan, rfl, hwhole, hshort⟩ := exists_lexeme hrest hc hsilent
  rw [hn] at hshort
  cases htoken : token? lexeme (c :: text) with
  | none =>
    obtain ⟨htokens, hreports⟩ := collect_comment index hrest hc hscan hwhole htoken
    rw [htokens] at h
    obtain ⟨rest', hmore⟩ := ih _ hshort _ h (hreports ▸ hsilent) rfl
    exact ⟨_, .comment hrest hc hscan hwhole htoken hmore⟩
  | some found =>
    obtain ⟨kind, value⟩ := found
    obtain ⟨htokens, hreports⟩ := collect_token index hrest hc hscan hwhole htoken
    rw [hreports] at hsilent
    rw [htokens] at h
    generalize hfirst : stamp index s.remarks kind value (s.spanOf (c :: text)) = token at h
    generalize hbehind : (collect index (s.behind lexeme (c :: text) rest)).tokens = tokens at h
    cases h with
    | keep more =>
      obtain rfl : token.kind = kind := by rw [← hfirst]; rfl
      obtain ⟨rest', hmore⟩ := ih _ hshort _ (hbehind ▸ more) hsilent rfl
      have hkeep : RespelledAt index s before _ _ _ := .keep hrest hc hscan hwhole htoken hmore
      rw [hfirst] at hkeep
      exact ⟨_, hkeep⟩
    | @name _ _ bracket _ _ _ chars name ends hkind opens fits more =>
      obtain rfl : kind = .identifier := by rw [← hkind, ← hfirst]; rfl
      obtain ⟨rfl, rfl⟩ := scan_identifier htoken
      have hafter : Respells .identifier (bracket :: _) _ _ := .keep (opens ▸ more)
      rw [← hbehind] at hafter
      obtain ⟨rest', hmore⟩ := ih _ hshort _ hafter hsilent rfl
      rw [← hfirst]
      exact ⟨_, .name hrest hscan ends fits ⟨bracket, by rw [hbehind]; rfl, opens⟩ hmore⟩
    | string hkind fits more =>
      obtain rfl : kind = .string := by rw [← hkind, ← hfirst]; rfl
      obtain ⟨rfl, rfl, hbody⟩ := scan_string (n := text.length) hscan hwhole
        (by rwa [List.take_left])
      rw [List.take_left] at hbody
      subst hbody
      obtain ⟨rest', hmore⟩ := ih _ hshort _ (hbehind ▸ more) hsilent rfl
      rw [← hfirst]
      exact ⟨_, .string hrest hscan fits hmore⟩

/-- The patches of a text stand one behind the other. -/
theorem ordered_patches {text : String} {before : TokenKind} {patches : List Patch}
    {respelled : List Token} (h : Respells before (ofText text).tokens patches respelled) :
    patches.Pairwise fun a b => a.span.start ≤ b.span.start ∧ a.span.stop ≤ b.span.start :=
  have hordered := ordered_ofText text
  h.ordered hordered.room (List.pairwise_append.1 hordered.pairwise).1

/-- The tokens of a text with patches at names and strings. -/
theorem respells_ofText {text : String} {before : TokenKind} {patches : List Patch}
    {respelled : List Token} (h : Respells before (ofText text).tokens patches respelled)
    (hsilent : (ofText text).reports = []) :
    let patched := String.ofList (Patch.applyAll patches text.toList)
    (ofText patched).reports = []
      ∧ List.Forall₂ Token.CountsAs respelled (ofText patched).tokens := by
  intro patched
  obtain ⟨rest, hat⟩ := respells_collect (.ofText text) (.ofText text) h hsilent
  have hrest : patched.toList = rest := (String.toList_ofList).trans (hat.text [] rfl)
  exact hat.tokens (.ofText patched) (.ofText patched) hrest rfl (.inl rfl)

end TokenList

end StoryCheck
