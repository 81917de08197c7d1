import StoryCheck.Proofs.Syntax.HeaderReports
import StoryCheck.Proofs.Syntax.SignatureReading
import StoryCheck.Proofs.Syntax.WrittenHeader

/-!
# Reading headers

What was read of a header without a report was written.
-/

namespace StoryCheck.Syntax.Parse

open Cursor

variable {s s₁ s' : Cursor} {kind : TokenKind} {kinds stops : KindSet} {source : List Char}

/-! ## Skipping

A header is full of stretches that nobody looks into: the text of a section, the metadata of a
declaration, the lines of an option. They are passed token by token, up to a token of a given kind. -/

/-- What is skipped is everything in front of the first token of one of the kinds. -/
theorem Reads.skipTo {x : Unit} (h : Reads (skipTo kinds) s x s') :
    s.Takes (s.ahead.takeWhile fun token => !kinds.contains token.kind) s' := by
  have hpasses := passes_skipTo kinds s
  rw [h.run] at hpasses
  exact hpasses.takes h.clean

/-- None of the tokens that are skipped is of the kind that ends the skipping. -/
theorem kind_ne_of_mem_takeWhile {token : Token} {tokens : List Token}
    (h : token ∈ tokens.takeWhile fun token => !List.contains [kind] token.kind) :
    token.kind ≠ kind := by
  simpa using List.all_eq_true.1 List.all_takeWhile token h

/-! ## Goals

A goal of the header is a word, a number in brackets, and entries between braces. The text of a
section is kept as it stands and parsed later; here it is a block between two braces. -/

/-- A block that was read stands between two braces with no closing brace inside, and its span is
the text between them. -/
theorem Reads.rawBlock {block : Option Span} (h : Reads rawBlock s block s') :
    ∃ (opening : TokenOf .lBrace) (inner : List Token) (closing : TokenOf .rBrace),
      (∀ token ∈ inner, token.kind ≠ .rBrace)
        ∧ block = some ⟨opening.1.range.span.stop, closing.1.range.span.start⟩
        ∧ s.Takes (opening.1 :: inner ++ [closing.1]) s' := by
  obtain ⟨brace, s₁, hbrace, h⟩ := h.bind
  cases brace with
  | none =>
    obtain ⟨rfl, rfl⟩ := h.of_pure
    obtain ⟨_, hnone, -⟩ := Reads.expect (by decide) ⟨hbrace, h.clean⟩
    cases hnone
  | some brace =>
    obtain ⟨_, s₂, hskip, h⟩ := h.bind
    have h := h.after (peek_apply s₂)
    obtain ⟨_, s₃, hclosing, h⟩ := h.bind
    obtain ⟨rfl, rfl⟩ := h.of_pure
    obtain ⟨_, hclosing⟩ := Reads.discard ⟨hclosing, h.clean⟩
    obtain ⟨closing, rfl, hthird⟩ := hclosing.expect (by decide)
    have hsecond := Reads.skipTo ⟨hskip, hthird.clean⟩
    obtain ⟨opening, hsome, hfirst⟩ := Reads.expect (by decide) ⟨hbrace, hsecond.clean⟩
    obtain rfl := Option.some.inj hsome
    refine ⟨opening, _, closing, fun _ => kind_ne_of_mem_takeWhile, ?_,
      hfirst.cons (hsecond.trans hthird)⟩
    rw [hthird.peek]

/-- A title that was read is a string in brackets. -/
theorem Reads.title {found : Option String} (h : Reads title s found s') :
    ∃ (opening : TokenOf .lParen) (text : TokenOf .string) (closing : TokenOf .rParen),
      found = some text.1.value ∧ s.Takes [opening.1, text.1, closing.1] s' := by
  obtain ⟨opening, s₁, hopening, h⟩ := h.bind
  have hrest : Advances (do
      let title ← Parse.expect .string "goal title"
      Functor.discard (Parse.expect .rParen "')'")
      return title.map (·.value)) :=
    .bind advances_expect fun _ => .bind advances_expect.discard fun _ => .pure
  obtain ⟨opening, rfl, hfirst⟩ := Reads.expect (by decide) ⟨hopening, (Advances.ite .pure hrest).clean h⟩
  obtain ⟨text, s₂, htext, h⟩ := h.bind
  obtain ⟨_, s₃, hclosing, h⟩ := h.bind
  obtain ⟨rfl, rfl⟩ := h.of_pure
  obtain ⟨_, hclosing⟩ := Reads.discard ⟨hclosing, h.clean⟩
  obtain ⟨closing, rfl, hthird⟩ := hclosing.expect (by decide)
  obtain ⟨text, rfl, hsecond⟩ := Reads.expect (by decide) ⟨htext, hthird.clean⟩
  exact ⟨opening, text, closing, rfl, hfirst.cons (hsecond.cons hthird)⟩

/-- A number that was read is an integer in brackets; what it says may be too large to be
represented. -/
theorem Reads.bracketedInteger {found : Option Int} (h : Reads (bracketedInteger stops) s found s') :
    ∃ (opening : TokenOf .lParen) (id : TokenOf .integer) (closing : TokenOf .rParen),
      found = Decimal.int64? id.1.value.toList ∧ s.Takes [opening.1, id.1, closing.1] s' := by
  obtain ⟨opening, s₁, hopening, h⟩ := h.bind
  have hlast {closing id : Option Token} : Advances (do
      if closing.isNone then
        Parse.skipPast stops .rParen
      return id.bind fun token => Decimal.int64? token.value.toList) :=
    .ite (.bind advances_skipPast fun _ => .pure) .pure
  have hrest : Advances (do
      let token ← Parse.expect .integer "integer"
      if (← Parse.expect .rParen "')'").isNone then
        Parse.skipPast stops .rParen
      return token.bind fun token => Decimal.int64? token.value.toList) :=
    .bind advances_expect fun _ => .bind advances_expect fun _ => hlast
  obtain ⟨opening, rfl, hfirst⟩ := Reads.expect (by decide) ⟨hopening, (Advances.ite .pure hrest).clean h⟩
  obtain ⟨id, s₂, hid, h⟩ := h.bind
  obtain ⟨closing, s₃, hclosing, h⟩ := h.bind
  obtain ⟨closing, rfl, hthird⟩ := Reads.expect (by decide) ⟨hclosing, hlast.clean h⟩
  obtain ⟨rfl, rfl⟩ := h.of_pure
  obtain ⟨id, rfl, hsecond⟩ := Reads.expect (by decide) ⟨hid, hthird.clean⟩
  exact ⟨opening, id, closing, rfl, hfirst.cons (hsecond.cons hthird)⟩

/-- A semicolon that may be missing. -/
theorem Reads.semicolon {x : Unit} (h : Reads (Functor.discard (Parse.eat .semicolon)) s x s') :
    ∃ semicolon : Option (TokenOf .semicolon), s.Takes (semicolon.toList.map (·.1)) s' := by
  obtain ⟨_, heat⟩ := h.discard
  obtain ⟨semicolon, -, htakes⟩ | ⟨-, rfl, -⟩ := heat.eat (by decide)
  · exact ⟨some semicolon, htakes⟩
  · exact ⟨none, .refl h.clean⟩

/-- An entry that is a section. -/
theorem Reads.section (kind : SectionKind) {found : Option (List GoalEntry)}
    (hat : s.kindAt 0 ≠ .endOfFile) (hword : s.peek.value = kind.word)
    (h : Reads (do Functor.discard Parse.take; return some [kind.entry (← Syntax.rawBlock)]) s found s') :
    ∃ w : WrittenGoalEntry, found = some [w.tree] ∧ w.tokens ≠ [] ∧ s.Takes w.tokens s' := by
  obtain ⟨_, s₁, htake, h⟩ := h.bind
  obtain ⟨block, s₂, hblock, h⟩ := h.bind
  obtain ⟨rfl, rfl⟩ := h.of_pure
  obtain ⟨opening, inner, closing, hplain, rfl, hsecond⟩ := Reads.rawBlock ⟨hblock, h.clean⟩
  obtain ⟨_, htake⟩ := Reads.discard ⟨htake, hsecond.clean⟩
  obtain ⟨rfl, hfirst⟩ := htake.take hat
  exact ⟨.block ⟨kind, s.peek, hword, opening, inner, hplain, closing⟩, rfl, List.cons_ne_nil _ _,
    hfirst.cons hsecond⟩

/-- An entry of a goal that was read was written, and a reader that found none has not moved. -/
theorem Reads.goalEntry {found : Option (List GoalEntry)} (h : Reads (goalEntry stops) s found s') :
    found = none ∧ s' = s
      ∨ ∃ w : WrittenGoalEntry, found = some [w.tree] ∧ w.tokens ≠ [] ∧ s.Takes w.tokens s' := by
  have h := h.after (isAtStop_apply _ _)
  split at h
  · obtain ⟨rfl, rfl⟩ := h.of_pure
    exact .inl ⟨rfl, rfl⟩
  next hstop =>
  -- The first token is looked at before it is taken, so it must not be the end of the text.
  have hat : s.kindAt 0 ≠ .endOfFile := by
    intro hend
    simp [hend] at hstop
  have h := h.after (peek_apply s)
  refine .inr ?_
  split at h
  next hword =>
    obtain ⟨_, s₁, htake, h⟩ := h.bind
    obtain ⟨text, s₂, htext, h⟩ := h.bind
    obtain ⟨_, s₃, hsemicolon, h⟩ := h.bind
    obtain ⟨rfl, rfl⟩ := h.of_pure
    -- Each part is known to be clean from the one behind it.
    obtain ⟨semicolon, hthird⟩ := Reads.semicolon ⟨hsemicolon, h.clean⟩
    obtain ⟨opening, text, closing, rfl, hsecond⟩ := Reads.title ⟨htext, hthird.clean⟩
    obtain ⟨_, htake⟩ := Reads.discard ⟨htake, hsecond.clean⟩
    obtain ⟨rfl, hfirst⟩ := htake.take hat
    exact ⟨.title s.peek hword opening text closing semicolon, rfl, List.cons_ne_nil _ _,
      hfirst.cons (hsecond.trans hthird)⟩
  next hword =>
    obtain ⟨_, s₁, htake, h⟩ := h.bind
    obtain ⟨id, s₂, hid, h⟩ := h.bind
    obtain ⟨_, s₃, hsemicolon, h⟩ := h.bind
    obtain ⟨rfl, rfl⟩ := h.of_pure
    obtain ⟨semicolon, hthird⟩ := Reads.semicolon ⟨hsemicolon, h.clean⟩
    obtain ⟨opening, id, closing, rfl, hsecond⟩ := Reads.bracketedInteger ⟨hid, hthird.clean⟩
    obtain ⟨_, htake⟩ := Reads.discard ⟨htake, hsecond.clean⟩
    obtain ⟨rfl, hfirst⟩ := htake.take hat
    exact ⟨.subGoal s.peek hword opening id closing semicolon, rfl, List.cons_ne_nil _ _,
      hfirst.cons (hsecond.trans hthird)⟩
  -- Sections differ by their word only.
  next hword => exact Reads.section .init hat hword h
  next hword => exact Reads.section .kb hat hword h
  next hword => exact Reads.section .exit hat hword h
  · exact absurd h (not_reads_unexpected (.bind advances_take.discard fun _ => .pure))

/-- A whole goal that was read was written: the number is that of its brackets, the entries are in
order. -/
theorem Reads.goalEntries {parts : Int × List GoalEntry} (hat : s.kindAt 0 = .identifier)
    (hword : s.peek.value = "Goal") (hend : s'.ending.kind = .endOfFile)
    (h : Reads goalEntries s parts s') :
    ∃ w : WrittenHeaderGoal, parts = ((Decimal.int64? w.id.1.value.toList).getD 0,
      w.entries.map (·.tree)) ∧ s.Takes w.tokens s' := by
  obtain ⟨_, s₁, htake, h⟩ := h.bind
  obtain ⟨id, s₂, hid, h⟩ := h.bind
  obtain ⟨brace, s₃, hbrace, h⟩ := h.bind
  -- What ends in a report is not read. So each step is shown to be clean by those behind it, from
  -- the last to the first.
  have hrest : Advances (do
      let entries ← Parse.many (Syntax.goalEntry [.rBrace])
      Functor.discard (Parse.expect .rBrace "'\x7d'")
      return (id.getD 0, entries)) :=
    .bind (.many spares_goalEntry.advances) fun _ => .bind advances_expect.discard fun _ => .pure
  obtain ⟨brace, rfl, hthird⟩ := Reads.expect (by decide) ⟨hbrace, (Advances.ite .pure hrest).clean h⟩
  obtain ⟨entries, s₄, hentries, h⟩ := h.bind
  obtain ⟨_, s₅, hlast, h⟩ := h.bind
  obtain ⟨rfl, rfl⟩ := h.of_pure
  obtain ⟨_, hlast⟩ := Reads.discard ⟨hlast, h.clean⟩
  obtain ⟨last, -, hfifth⟩ := hlast.expect (by decide)
  have hentries : Reads _ s₃ entries s₄ := ⟨hentries, hfifth.clean⟩
  obtain ⟨entries, rfl, hfourth, -⟩ := hentries.many WrittenGoalEntry.tree WrittenGoalEntry.tokens
    (fun _ => True) spares_goalEntry.advances (hfifth.ends hend) (fun _ _ => trivial)
    fun _ h _ => h.goalEntry
  obtain ⟨opening, id, closing, rfl, hsecond⟩ := Reads.bracketedInteger ⟨hid, hthird.clean⟩
  obtain ⟨_, htake⟩ := Reads.discard ⟨htake, hsecond.clean⟩
  obtain ⟨rfl, hfirst⟩ := htake.take (by simp [hat])
  have hkind : s.peek.kind = .identifier := by rw [← hfirst.kindAt_zero, hat]
  exact ⟨⟨⟨s.peek, hkind⟩, hword, opening, id, closing, brace, entries, last⟩, rfl,
    hfirst.cons (hsecond.trans (hthird.cons (hfourth.trans hfifth)))⟩

/-! ## Aliases, options and declarations

Semicolons may be missing in a header, and the metadata behind a declaration may be missing, too;
both are part of what is written, as options. -/

/-- A line of options that was read was written. -/
theorem Reads.headerOption {x : Unit} (hat : s.kindAt 0 = .identifier)
    (hword : s.peek.value ∈ ["option", "version"]) (h : Reads headerOption s x s') :
    ∃ w : WrittenLine, s.Takes w.tokens s' := by
  obtain ⟨word, s₁, htake, h⟩ := h.bind
  have htaken := List.takeWhile_prefix (l := s₁.ahead)
    fun token : Token => token.range.first.line == word.range.first.line
  have hskipped := passes_skip (List.prefix_iff_eq_append.1 htaken).symm
  obtain rfl := (Prod.mk.inj h.run).2
  have hsecond := hskipped.takes h.clean
  obtain ⟨rfl, hfirst⟩ := Reads.take (by simp [hat]) ⟨htake, hsecond.clean⟩
  have hkind : s.peek.kind = .identifier := by rw [← hfirst.kindAt_zero, hat]
  refine ⟨⟨⟨s.peek, hkind⟩, hword, _, fun token hmem => ?_⟩, hfirst.cons hsecond⟩
  exact beq_iff_eq.1 (List.all_eq_true.1 List.all_takeWhile token hmem)

/-- The same as an entry of a header, of which nothing is left in the tree. -/
theorem Reads.optionEntry {found : Option (List HeaderEntry)}
    (h : Reads (do Syntax.headerOption; return some []) s found s') (hat : s.kindAt 0 = .identifier)
    (hword : s.peek.value ∈ ["option", "version"]) :
    ∃ w : WrittenLine, found = some [] ∧ s.Takes w.tokens s' := by
  obtain ⟨_, s₁, hread, h⟩ := h.bind
  obtain ⟨rfl, rfl⟩ := h.of_pure
  obtain ⟨w, htakes⟩ := Reads.headerOption hat hword ⟨hread, h.clean⟩
  exact ⟨w, rfl, htakes⟩

/-- The base of an alias is a number or a word, one token in either case. -/
theorem Reads.aliasBase {found : Option AliasBase} (hend : s'.ending.kind = .endOfFile)
    (h : Reads aliasBase s found s') :
    ∃ w : WrittenBase, found = some w.tree ∧ s.Takes [w.token] s' := by
  have hends := advances_aliasBase.ends h hend
  have h := h.after (peek_apply s)
  split at h
  next hkind =>
    obtain ⟨_, s₁, htake, h⟩ := h.bind
    obtain ⟨rfl, rfl⟩ := h.of_pure
    obtain ⟨_, htake⟩ := Reads.discard ⟨htake, h.clean⟩
    obtain ⟨rfl, htakes⟩ := htake.take (by simp [← kind_peek hends, hkind])
    exact ⟨.named ⟨s.peek, hkind⟩, rfl, htakes⟩
  next hkind =>
    obtain ⟨_, s₁, htake, h⟩ := h.bind
    obtain ⟨rfl, rfl⟩ := h.of_pure
    obtain ⟨_, htake⟩ := Reads.discard ⟨htake, h.clean⟩
    obtain ⟨rfl, htakes⟩ := htake.take (by simp [← kind_peek hends, hkind])
    exact ⟨.id ⟨s.peek, hkind⟩, rfl, htakes⟩
  · exact absurd h (not_reads_unexpected (.bind advances_skipPast fun _ => .pure))

/-- An alias that was read was written. There are five places where it could have broken off, each
with a report. -/
theorem Reads.aliasParts {found : Option (AliasBase × String)} (hat : s.kindAt 0 = .identifier)
    (hword : s.peek.value = "alias_type") (hend : s'.ending.kind = .endOfFile)
    (h : Reads aliasParts s found s') :
    ∃ w : WrittenAlias, found = some (w.base.tree, w.name.1.value) ∧ s.Takes w.tokens s' := by
  obtain ⟨_, s₁, htake, h⟩ := h.bind
  obtain ⟨opening, s₂, hopening, h⟩ := h.bind
  split at h
  next hnone =>
    obtain ⟨-, rfl⟩ := h.of_pure
    obtain ⟨_, rfl, -⟩ := Reads.expect (by decide) ⟨hopening, h.clean⟩
    cases hnone
  obtain ⟨base, s₃, hbase, h⟩ := h.bind
  cases base with
  | none =>
    obtain ⟨-, rfl⟩ := h.of_pure
    obtain ⟨_, hnone, -⟩ := Reads.aliasBase hend ⟨hbase, h.clean⟩
    cases hnone
  | some base =>
  obtain ⟨closing, s₄, hclosing, h⟩ := h.bind
  split at h
  next hnone =>
    obtain ⟨-, rfl⟩ := h.of_pure
    obtain ⟨_, rfl, -⟩ := Reads.expect (by decide) ⟨hclosing, h.clean⟩
    cases hnone
  obtain ⟨name, s₅, hname, h⟩ := h.bind
  cases name with
  | none =>
    obtain ⟨-, rfl⟩ := h.of_pure
    obtain ⟨_, hnone, -⟩ := Reads.expect (by decide) ⟨hname, h.clean⟩
    cases hnone
  | some name =>
  obtain ⟨_, s₆, hsemicolon, h⟩ := h.bind
  obtain ⟨rfl, rfl⟩ := h.of_pure
  -- From the end backwards: a part was read without a report if all behind it was.
  obtain ⟨semicolon, hsixth⟩ := Reads.semicolon ⟨hsemicolon, h.clean⟩
  obtain ⟨name, hsome, hfifth⟩ := Reads.expect (by decide) ⟨hname, hsixth.clean⟩
  obtain rfl := Option.some.inj hsome
  obtain ⟨closing, rfl, hfourth⟩ := Reads.expect (by decide) ⟨hclosing, hfifth.clean⟩
  have hends := hfourth.ends (hfifth.ends (hsixth.ends hend))
  obtain ⟨base, hsome, hthird⟩ := Reads.aliasBase hends ⟨hbase, hfourth.clean⟩
  obtain rfl := Option.some.inj hsome
  obtain ⟨opening, rfl, hsecond⟩ := Reads.expect (by decide) ⟨hopening, hthird.clean⟩
  obtain ⟨_, htake⟩ := Reads.discard ⟨htake, hsecond.clean⟩
  obtain ⟨rfl, hfirst⟩ := htake.take (by simp [hat])
  have hkind : s.peek.kind = .identifier := by rw [← hfirst.kindAt_zero, hat]
  exact ⟨⟨⟨s.peek, hkind⟩, hword, opening, base, closing, name, semicolon⟩, rfl,
    hfirst.cons (hsecond.cons (hthird.cons (hfourth.cons (hfifth.cons hsixth))))⟩

/-- Brackets are skipped whatever stands in them, to the end of the text if they stay open. -/
theorem Reads.tuple {x : Unit} (hat : s.kindAt 0 = .lParen) (h : Reads (skipPast [] .rParen) s x s') :
    ∃ w : WrittenTuple, s.Takes w.tokens s' := by
  obtain ⟨_, s₁, hskip, h⟩ := h.bind
  obtain ⟨_, heat⟩ := h.discard
  obtain ⟨closing, hclosing⟩ :
      ∃ closing : Option (TokenOf .rParen), s₁.Takes (closing.toList.map (·.1)) s' := by
    obtain ⟨token, -, htoken⟩ | ⟨-, rfl, -⟩ := heat.eat (by decide)
    · exact ⟨some token, htoken⟩
    · exact ⟨none, .refl heat.clean⟩
  have hskip : Reads (Parse.skipTo [.rParen]) s _ s₁ := ⟨hskip, hclosing.clean⟩
  have hskipped := hskip.skipTo
  cases hahead : s.ahead with
  | nil => simp [Cursor.kindAt, hahead] at hat
  | cons opening rest =>
    have hkind : opening.kind = .lParen := by simpa [Cursor.kindAt, hahead] using hat
    rw [hahead, List.takeWhile_cons_of_pos (by simp [hkind])] at hskipped
    exact ⟨⟨⟨opening, hkind⟩, _, fun _ => kind_ne_of_mem_takeWhile, closing⟩,
      hskipped.trans hclosing⟩

/-- A declaration that was read was written, with its signature and its brackets of metadata, if
there are any. -/
theorem Reads.definition {kind : DeclarationKind} {a : Definition} (hat : s.kindAt 0 = .identifier)
    (hword : DeclarationKind.ofWord? s.peek.value = some kind) (hend : s'.ending.kind = .endOfFile)
    (h : Reads (definition kind) s a s') :
    ∃ w : WrittenDeclaration, a = w.tree ∧ s.Takes w.tokens s' := by
  obtain ⟨parts, hread, rfl⟩ := h.of_ranged (g := Definition.mk kind) fun _ _ => rfl
  obtain ⟨_, s₁, htake, h⟩ := hread.bind
  obtain ⟨signature, s₂, hsignature, h⟩ := h.bind
  -- The semicolon stands behind the brackets if there are some.
  have written {s₃ : Cursor} (htuple : s₃.reports = [] → ∃ tuple : Option WrittenTuple,
        s₂.Takes (tuple.toList.flatMap (·.tokens)) s₃)
      (h : Reads (do Functor.discard (Parse.eat .semicolon); return signature) s₃ parts s') :
      ∃ w : WrittenDeclaration, ⟨kind, parts, s.rangeTo s'⟩ = w.tree ∧ s.Takes w.tokens s' := by
    obtain ⟨_, s₄, hsemicolon, h⟩ := h.bind
    obtain ⟨rfl, rfl⟩ := h.of_pure
    obtain ⟨semicolon, hfourth⟩ := Reads.semicolon ⟨hsemicolon, h.clean⟩
    obtain ⟨tuple, hthird⟩ := htuple hfourth.clean
    obtain ⟨signature, rfl, hsecond⟩ :=
      Reads.signature (hthird.ends (hfourth.ends hend)) ⟨hsignature, hthird.clean⟩
    obtain ⟨_, htake⟩ := Reads.discard ⟨htake, hsecond.clean⟩
    obtain ⟨rfl, hfirst⟩ := htake.take (by simp [hat])
    have hkind : s.peek.kind = .identifier := by rw [← hfirst.kindAt_zero, hat]
    let w : WrittenDeclaration := ⟨⟨s.peek, hkind⟩, kind, hword, signature, tuple, semicolon⟩
    have htakes : s.Takes w.tokens s' := by
      simpa [w, WrittenDeclaration.tokens] using hfirst.cons (hsecond.trans (hthird.trans hfourth))
    refine ⟨w, ?_, htakes⟩
    rw [htakes.rangeTo_of_ne_nil (by simp [w, WrittenDeclaration.tokens])]
    rfl
  have h := h.after (isAt_apply _ _)
  dsimp only at h
  split at h
  -- What stands between the brackets is skipped.
  next hparen =>
    obtain ⟨_, s₃, hskip, h⟩ := h.bind
    refine written (fun hclean => ?_) h
    obtain ⟨tuple, htuple⟩ := Reads.tuple (by simpa using hparen) ⟨hskip, hclean⟩
    exact ⟨some tuple, by simpa using htuple⟩
  next => exact written (fun hclean => ⟨none, .refl hclean⟩) h

/-! ## Headers

A header is a row of entries, and the first token of an entry says what it is. An entry that does
not start with a word of the language is reported, and so are braces and brackets that stand alone. -/

/-- An entry that was read was written. The reader stops at the end of the text and nowhere else. -/
theorem Reads.headerEntry {found : Option (List HeaderEntry)} (hend : s'.ending.kind = .endOfFile)
    (h : Reads (headerEntry source) s found s') :
    found = none ∧ s' = s ∧ s.peek.kind = .endOfFile
      ∨ ∃ w : WrittenEntry, found = some (w.trees source) ∧ w.tokens ≠ [] ∧ s.Takes w.tokens s' := by
  have hends := spares_headerEntry.advances.ends h hend
  have h := h.after (peek_apply s)
  -- Either the end is reached, or the word in front says which kind of entry it is.
  split at h
  next hkind =>
    obtain ⟨rfl, rfl⟩ := h.of_pure
    exact .inl ⟨rfl, rfl, hkind⟩
  next hkind =>
    have hat : s.kindAt 0 = .identifier := by rw [← kind_peek hends, hkind]
    refine .inr ?_
    split at h
    next hword =>
      obtain ⟨parts, hread, rfl⟩ := h.of_ranged (g := fun parts range =>
        some (parts.map fun (x : AliasBase × String) => HeaderEntry.typeAlias ⟨x.2, x.1, range⟩).toList)
        fun _ _ => rfl
      obtain ⟨w, rfl, htakes⟩ := hread.aliasParts hat hword hend
      refine ⟨.typeAlias w, ?_, List.cons_ne_nil _ _, htakes⟩
      rw [htakes.rangeTo_of_ne_nil (List.cons_ne_nil _ _)]
      rfl
    next hword =>
      obtain ⟨w, rfl, htakes⟩ := h.optionEntry hat (by simp [hword])
      exact ⟨.line w, rfl, List.cons_ne_nil _ _, htakes⟩
    next hword =>
      obtain ⟨w, rfl, htakes⟩ := h.optionEntry hat (by simp [hword])
      exact ⟨.line w, rfl, List.cons_ne_nil _ _, htakes⟩
    next hword =>
      obtain ⟨parts, hread, rfl⟩ := h.of_ranged (g := fun parts range =>
        some [.goal (.ofEntries source parts.1 parts.2 range) (parts.2.filterMap GoalEntry.block?)])
        fun _ _ => rfl
      obtain ⟨w, rfl, htakes⟩ := hread.goalEntries hat hword hend
      refine ⟨.goal w, ?_, List.cons_ne_nil _ _, htakes⟩
      rw [htakes.rangeTo_of_ne_nil (List.cons_ne_nil _ _)]
      rfl
    next =>
      split at h
      next kind hkeyword =>
        obtain ⟨declared, s₁, hread, h⟩ := h.bind
        obtain ⟨rfl, rfl⟩ := h.of_pure
        obtain ⟨w, rfl, htakes⟩ := Reads.definition hat hkeyword hend ⟨hread, h.clean⟩
        exact ⟨.declaration w, rfl, List.cons_ne_nil _ _, htakes⟩
      · -- A word that says nothing is reported,
        exact absurd h (not_reads_unexpected (.bind advances_take.discard fun _ => .pure))
  · -- and so is what is no word.
    exact absurd h (not_reads_unexpected (.bind advances_take.discard fun _ => .pure))

/-- A header that was read without a report was written, declaration by declaration and goal by
goal, and nothing is left of it. -/
theorem Reads.header {parsed : Header × List Span} (hend : s'.ending.kind = .endOfFile)
    (hahead : ∀ token ∈ s'.ahead, token.kind ≠ .endOfFile) (h : Reads (header source) s parsed s') :
    ∃ w : WrittenHeader, parsed.1.definitions = w.declarations.map (·.tree)
      ∧ parsed.1.goals = w.goals.map (·.tree source) ∧ s.Takes w.tokens s' ∧ s'.ahead = [] := by
  obtain ⟨⟨entries, range⟩, s₁, hread, h⟩ := h.bind
  obtain ⟨rfl, rfl⟩ := h.of_pure
  obtain ⟨hread, -⟩ := Reads.ranged ⟨hread, h.clean⟩
  obtain ⟨entries, rfl, htakes, hstop⟩ := hread.many_flatMap (WrittenEntry.trees source)
    WrittenEntry.tokens (fun _ => True) spares_headerEntry.advances hend (fun _ _ => trivial)
    fun hend h _ => (h.headerEntry hend).imp_left fun ⟨hnone, hstays, _⟩ => ⟨hnone, hstays⟩
  refine ⟨⟨entries⟩, WrittenHeader.definitions_trees source ⟨entries⟩,
    WrittenHeader.goals_trees source ⟨entries⟩, htakes, ?_⟩
  obtain hnone | h := hstop
  · exact hnone
  cases hs : s'.ahead with
  | nil => rfl
  | cons token rest =>
    -- An entry is declined at the end of the text only.
    obtain ⟨-, -, hkind⟩ | ⟨w, hnone, -⟩ := h.headerEntry hend
    · rw [show s'.peek = token by simp [Cursor.peek, hs]] at hkind
      exact absurd hkind (hahead token (by simp [hs]))
    · cases hnone

end StoryCheck.Syntax.Parse
