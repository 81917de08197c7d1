import Mathlib.Data.List.Forall2
import Mathlib.Data.List.Nodup
import Mathlib.Data.List.Pairwise
import StoryCheck.Proofs.Syntax.HeaderReading
import StoryCheck.Proofs.Syntax.SectionText

/-!
# What headers hold

A header without a diagnostic is written by the grammar of headers, so that each word that declares
something has a place in it. All of them declare what stands behind them, but for those in the
brackets behind a signature, which are passed over whatever stands in them and without a look for
the closing one. Of the sections of a goal the last of each kind is shown in the goal that is made.

* **`silent_header_is_kept`** — what a header without a diagnostic declares, and what its goals show.
* **`header_may_lose_a_declaration`** — open brackets swallow the declarations behind them.
* **`header_may_lose_a_section`** — a section that is given again is not shown.
-/

namespace StoryCheck.Syntax

open Cursor Parse

/-! ## Sections

A goal in a header may give a section several times; only the last one is shown. This is the same
for all three kinds. -/

/-- The text of a section is one of the three of its goal. -/
theorem SectionKind.of_mem (kind : SectionKind) (goal : HeaderGoal) :
    kind.of goal ∈ [goal.init, goal.kb, goal.exit] := by
  cases kind <;> simp [SectionKind.of]

/-- The span that an entry of a goal gives to a section. -/
def SectionKind.given? : SectionKind → GoalEntry → Option Span
  | init => fun | .init block => block | _ => none
  | kb => fun | .kb block => block | _ => none
  | exit => fun | .exit block => block | _ => none

/-- A goal is put together in the same way for each kind of section: from the entry that gave it
last. -/
theorem SectionKind.of_ofEntries (kind : SectionKind) (source : List Char) (id : Int)
    (entries : List GoalEntry) (range : Range) :
    kind.of (.ofEntries source id entries range)
      = ((lastGiven? kind.given? entries).map fun span =>
          Section.ofText span.start (slice span.start span.stop source)).getD {} := by
  cases kind <;> rfl

/-- A written entry gives its span to the section of its own kind and to no other. -/
theorem SectionKind.given?_tree (kind : SectionKind) (entry : WrittenGoalEntry) :
    kind.given? entry.tree = (entry.sectionOf? kind).map (·.span) := by
  cases entry with
  | title => cases kind <;> rfl
  | subGoal => cases kind <;> rfl
  | block written =>
    obtain ⟨other⟩ := written
    cases kind <;> cases other <;> rfl

namespace WrittenHeaderGoal

variable {source : List Char} {goal : WrittenHeaderGoal} {kind : SectionKind}
  {block : WrittenSection}

/-- What is given last among the entries is what the last section of the kind gives. -/
theorem lastGiven_entries (goal : WrittenHeaderGoal) (kind : SectionKind) :
    lastGiven? kind.given? (goal.entries.map (·.tree))
      = (goal.sections kind).getLast?.map (·.span) := by
  have hspans : (goal.entries.map (·.tree)).filterMap kind.given?
      = (goal.sections kind).map (·.span) := by
    rw [List.filterMap_map, sections, List.map_filterMap]
    exact List.filterMap_congr fun entry _ => kind.given?_tree entry
  rw [lastGiven?, hspans, List.getLast?_map]

/-- Of the sections of a kind the last one counts. -/
theorem section_tree (h : (goal.sections kind).getLast? = some block) :
    kind.of (goal.tree source)
      = Section.ofText block.span.start (slice block.span.start block.span.stop source) := by
  rw [tree, SectionKind.of_ofEntries, lastGiven_entries, h]
  rfl

end WrittenHeaderGoal

/-! ## Headers

From the silence of the reader to a written header. -/

/-- A header without a diagnostic follows the grammar of headers. -/
theorem exists_writtenHeader {text : String} (hsilent : (parseHeader text).diagnostics = []) :
    ∃ header : WrittenHeader, (TokenList.ofText text).tokens = header.tokens
      ∧ (parseHeader text).tree.definitions = header.declarations.map (·.tree)
      ∧ (parseHeader text).tree.goals = header.goals.map (·.tree text.toList) := by
  have hclean := reports_eq_nil_of_silent hsilent
  obtain ⟨hkinds, hlast⟩ := TokenList.kind_ofText text
  have hspares : Spares (header text.toList) fun parsed => parsed.2 := spares_header
  obtain ⟨taken, found, hpasses⟩ := hspares.advances (ofTokens (.ofText text))
  have htree : (parseHeader text).tree = (header text.toList (ofTokens (.ofText text))).1.1 := rfl
  rw [htree]
  generalize hrun : header text.toList (ofTokens (.ofText text)) = result at *
  obtain ⟨parsed, after⟩ := result
  have hahead : ∀ token ∈ after.ahead, token.kind ≠ .endOfFile := by
    intro token hmem
    have hahead : (TokenList.ofText text).tokens = taken ++ after.ahead := hpasses.ahead
    exact (hkinds token (hahead ▸ List.mem_append_right taken hmem)).1
  obtain ⟨w, hdefinitions, hgoals, htakes, hnone⟩ :=
    Reads.header (hpasses.ending ▸ hlast) hahead ⟨hrun, hclean⟩
  have htokens := htakes.passes.ahead
  rw [hnone, List.append_nil] at htokens
  exact ⟨w, htokens, hdefinitions, hgoals⟩

/-! ## Declarations

Words that declare something are names everywhere else. The tokens of a silent header are therefore
sorted by the entry and the place that they stand in. -/

namespace WrittenEntry

/-- A word that declares something stands in front of a declaration, or has another place. -/
theorem place_of_word {entry : WrittenEntry} {token : Token} {kind : DeclarationKind}
    (hmem : token ∈ entry.tokens) (hidentifier : token.kind = .identifier)
    (hword : DeclarationKind.ofWord? token.value = some kind) :
    (∃ written, entry = declaration written ∧ written.word.1 = token ∧ written.kind = kind)
      ∨ token ∈ entry.subordinate ∨ token ∈ entry.meaningless := by
  have hkind {other : TokenKind} (written : TokenOf other) (hne : other ≠ .identifier) :
      token ≠ written.1 := by
    rintro rfl
    exact hne (written.2.symm.trans hidentifier)
  have hoptional {other : TokenKind} (written : Option (TokenOf other)) (hne : other ≠ .identifier) :
      token ∉ written.toList.map (·.1) := by
    intro hmem
    obtain ⟨part, -, heq⟩ := List.mem_map.1 hmem
    exact hkind part hne heq.symm
  -- The word is an identifier and no keyword of the entry, so that it is where such words are of
  -- another meaning.
  cases entry with
  | typeAlias written =>
    have hnot : token ≠ written.word.1 := by
      rintro rfl
      rw [written.reads] at hword
      cases hword
    simp only [tokens, WrittenAlias.tokens, List.mem_cons, hnot, hkind written.opening (by decide),
      hkind written.closing (by decide), hoptional written.semicolon (by decide), false_or,
      or_false] at hmem
    exact .inr (.inl (by simpa [subordinate] using hmem))
  | line written => exact .inr (.inl hmem)
  | declaration written =>
    simp only [tokens, WrittenDeclaration.tokens, List.mem_append, List.mem_cons,
      hoptional written.semicolon (by decide), or_false] at hmem
    obtain (rfl | hplace) | hplace := hmem
    · exact .inl ⟨written, rfl, rfl, Option.some.inj (written.reads.symm.trans hword)⟩
    · exact .inr (.inl hplace)
    · exact .inr (.inr hplace)
  | goal written => exact .inr (.inl hmem)

end WrittenEntry

namespace WrittenDeclaration

/-- What is declared stands where its word does. -/
theorem declaration_tree {written : WrittenDeclaration} (hname : written.signature.name.1.value ≠ "") :
    ∃ d, written.tree.declaration? = some d ∧ d.kind = written.kind
      ∧ d.span.start = written.word.1.range.span.start := by
  refine ⟨_, if_neg hname, rfl, ?_⟩
  simp [tree, rangeOf, tokens, List.getLast?_cons]

end WrittenDeclaration

namespace WrittenHeader

variable {header : WrittenHeader} {written : WrittenDeclaration} {token : Token}

theorem mem_declarations : written ∈ header.declarations ↔ .declaration written ∈ header.entries := by
  constructor
  · intro hmem
    obtain ⟨entry, hentry, hwritten⟩ := List.mem_filterMap.1 hmem
    cases entry <;> simp_all [WrittenEntry.declaration?]
  · intro hmem
    exact List.mem_filterMap.2 ⟨_, hmem, rfl⟩

/-- A word that declares something stands in front of a declaration, or has another place. -/
theorem place_of_word {kind : DeclarationKind} (hmem : token ∈ header.tokens)
    (hidentifier : token.kind = .identifier)
    (hword : DeclarationKind.ofWord? token.value = some kind) (hfree : token ∉ header.subordinate) :
    (∃ written ∈ header.declarations, written.word.1 = token ∧ written.kind = kind)
      ∨ token ∈ header.meaningless := by
  obtain ⟨entry, hentry, hmem⟩ := List.mem_flatMap.1 hmem
  rcases WrittenEntry.place_of_word hmem hidentifier hword with ⟨written, rfl, heq, hkind⟩ | hsub | hlost
  · exact .inl ⟨written, mem_declarations.2 hentry, heq, hkind⟩
  · exact absurd (List.mem_flatMap.2 ⟨entry, hentry, hsub⟩) hfree
  · exact .inr (List.mem_flatMap.2 ⟨entry, hentry, hlost⟩)

/-- No token is both the word of a declaration and in the brackets of one. -/
theorem word_not_mem_meaningless (hnodup : header.tokens.Nodup) (hmem : written ∈ header.declarations) :
    written.word.1 ∉ header.meaningless := by
  intro hlost
  have hentry := mem_declarations.1 hmem
  obtain ⟨other, hother, hlost⟩ := List.mem_flatMap.1 hlost
  obtain ⟨heach, hdisjoint⟩ := List.nodup_flatMap.1 hnodup
  obtain ⟨others, rfl⟩ : ∃ others, other = .declaration others := by
    cases other <;> first | exact ⟨_, rfl⟩ | cases hlost
  have hword : written.word.1 ∈ (WrittenEntry.declaration written).tokens := by
    simp [WrittenEntry.tokens, WrittenDeclaration.tokens]
  -- Equal declarations share their tokens, so only different ones are told apart by their places.
  by_cases hsame : written = others
  · subst hsame
    have hnodup := heach _ hentry
    rw [WrittenEntry.tokens, WrittenDeclaration.tokens, List.cons_append, List.cons_append,
      List.nodup_cons] at hnodup
    exact hnodup.1 (List.mem_append_left _ (List.mem_append_right _ hlost))
  · have hlost : written.word.1 ∈ (WrittenEntry.declaration others).tokens :=
      List.mem_append_left _ (List.mem_append_right _ hlost)
    have hne : WrittenEntry.declaration written ≠ .declaration others := fun heq =>
      hsame (WrittenEntry.declaration.inj heq)
    have : Std.Symm (Function.onFun List.Disjoint WrittenEntry.tokens) := ⟨fun _ _ h _ hb ha => h ha hb⟩
    exact hdisjoint.forall hentry hother hne hword hlost

theorem word_mem_tokens (hmem : written ∈ header.declarations) : written.word.1 ∈ header.tokens :=
  List.mem_flatMap.2 ⟨_, mem_declarations.1 hmem, .head _⟩

/-- No declaration of a text is without a name. -/
theorem name_ne_empty {text : String} (htokens : (TokenList.ofText text).tokens = header.tokens) :
    ∀ written ∈ header.declarations, written.signature.name.1.value ≠ "" := by
  intro written hwritten
  have hname : written.signature.name.1 ∈ (WrittenEntry.declaration written).tokens := by
    simp [WrittenEntry.tokens, WrittenDeclaration.tokens, WrittenSignature.tokens]
  have hmem : written.signature.name.1 ∈ (TokenList.ofText text).tokens :=
    htokens ▸ List.mem_flatMap.2 ⟨_, mem_declarations.1 hwritten, hname⟩
  exact ((TokenList.kind_ofText text).1 _ hmem).2 written.signature.name.2

/-- The entries of a header without nameless declarations are those of its declarations. -/
theorem exists_declaration_iff (hnames : ∀ written ∈ header.declarations,
      written.signature.name.1.value ≠ "") {P : DeclarationKind → Nat → Prop} :
    (∃ d ∈ (header.declarations.map (·.tree)).filterMap Definition.declaration?,
        P d.kind d.span.start)
      ↔ ∃ written ∈ header.declarations, P written.kind written.word.1.range.span.start := by
  constructor
  · rintro ⟨d, hd, hP⟩
    obtain ⟨definition, hdefinition, hd⟩ := List.mem_filterMap.1 hd
    obtain ⟨written, hwritten, rfl⟩ := List.mem_map.1 hdefinition
    obtain ⟨_, hsome, hkind, hstart⟩ := written.declaration_tree (hnames written hwritten)
    obtain rfl := Option.some.inj (hd.symm.trans hsome)
    exact ⟨written, hwritten, hkind ▸ hstart ▸ hP⟩
  · rintro ⟨written, hwritten, hP⟩
    obtain ⟨d, hd, hkind, hstart⟩ := written.declaration_tree (hnames written hwritten)
    exact ⟨d, List.mem_filterMap.2 ⟨_, List.mem_map_of_mem hwritten, hd⟩, hkind ▸ hstart ▸ hP⟩

end WrittenHeader

/-! ## What is lost

What a silent header does not show: sections that are given again, and all that stands in brackets
behind a signature. -/

/-- No two tokens of a text start at the same place. -/
theorem nodup_starts (text : String) :
    ((TokenList.ofText text).tokens.map (·.range.span.start)).Nodup := by
  have hordered := TokenList.ordered_ofText text
  have hpairwise := (List.pairwise_append.1 hordered.pairwise).1
  refine List.pairwise_map.2 (hpairwise.imp_of_mem fun {a b} ha _ hle => ?_)
  have := hordered.room a ha
  omega

/-- A header is kept. Each word that could declare something, and does not belong to the line of an
option, an alias, a signature or a goal, declares something in its place, unless it stands in the
brackets behind a signature. For each goal the last of its sections of a kind stands in the text that
is made of it. -/
structure WrittenHeader.IsKept (header : WrittenHeader) (text : String) : Prop where
  tokens : (TokenList.ofText text).tokens = header.tokens
  definitions : (parseHeader text).tree.definitions = header.declarations.map (·.tree)
  declared : ∀ token ∈ header.tokens, ∀ kind, token.kind = .identifier →
    DeclarationKind.ofWord? token.value = some kind → token ∉ header.subordinate →
    (token ∉ header.meaningless ↔ ∃ d ∈ (parseHeader text).tree.declarations,
      d.kind = kind ∧ d.span.start = token.range.span.start)
  shown : List.Forall₂ (fun goal (made : String × String × SourceMap) => ∀ kind block,
      (goal.sections kind).getLast? = some block →
      ∃ shown, Shows (slice block.span.start block.span.stop text.toList) shown
        ∧ shown <:+: made.2.1.toList)
    header.goals (parseHeader text).tree.goalTexts

/-- **What a header without a diagnostic declares and shows.** -/
theorem silent_header_is_kept (text : String) (hsilent : (parseHeader text).diagnostics = []) :
    ∃ header : WrittenHeader, header.IsKept text := by
  obtain ⟨header, htokens, hdefinitions, hgoals⟩ := exists_writtenHeader hsilent
  refine ⟨header, htokens, hdefinitions, ?declared, ?shown⟩
  case declared =>
    have hstarts := htokens ▸ nodup_starts text
    intro token hmem kind hidentifier hword hfree
    -- By its place a declaration is that of a written one, whose word is the token.
    rw [Header.declarations, hdefinitions, WrittenHeader.exists_declaration_iff
      (WrittenHeader.name_ne_empty htokens)
      (P := fun k start => k = kind ∧ start = token.range.span.start)]
    constructor
    · intro hheld
      obtain ⟨written, hwritten, rfl, rfl⟩ :=
        (WrittenHeader.place_of_word hmem hidentifier hword hfree).resolve_right hheld
      exact ⟨written, hwritten, rfl, rfl⟩
    · rintro ⟨written, hwritten, -, hstart⟩
      have hsame : written.word.1 = token := List.inj_on_of_nodup_map hstarts
        (WrittenHeader.word_mem_tokens hwritten) hmem hstart
      exact hsame ▸ WrittenHeader.word_not_mem_meaningless hstarts.of_map hwritten
  case shown =>
    rw [Header.goalTexts, hgoals, List.map_map, List.forall₂_map_right_iff, List.forall₂_same]
    intro goal _ kind block hlast
    have hsection : kind.of (goal.tree text.toList) = _ := goal.section_tree hlast
    exact ⟨_, hsection ▸ shows_ofText _ _, text_infix_toText _ _ (kind.of_mem _)⟩

/-- Options, aliases, declarations with brackets and goals do not hide each other. -/
theorem crowded_header_is_kept : ∃ header : WrittenHeader, header.IsKept
    "option gold\nalias_type \x7bSTRING\x7d NAME\ncall A([in](INTEGER)_Id) (1,2)\nGoal(1) \x7b\n\tTitle(\"T\");\n\tKB \x7b\n\t\tPROC F() THEN DB_A(1);\n\t\x7d\n\x7d\nevent B();" :=
  silent_header_is_kept _ (by decide +kernel)

/-- Without their closing one the brackets behind a signature swallow what stands behind them. -/
theorem header_may_lose_a_declaration :
    let text := "call A() (1,2;\ncall B();\ncall C();"
    (parseHeader text).diagnostics = [] ∧ (parseHeader text).tree.goalTexts = []
      ∧ (∀ token ∈ (TokenList.ofText text).tokens,
          token.value ∉ ["option", "version", "alias_type", "Goal"])
      ∧ ∃ token ∈ (TokenList.ofText text).tokens, token.kind = .identifier
          ∧ DeclarationKind.ofWord? token.value = some .call
          ∧ (∀ definition ∈ (parseHeader text).tree.definitions,
              definition.signature.range.span.stop ≤ token.range.span.start
                ∨ token.range.span.stop ≤ definition.signature.range.span.start)
          ∧ ∀ d ∈ (parseHeader text).tree.declarations, d.span.start ≠ token.range.span.start := by
  decide +kernel

/-- Of two sections of a kind the first is not shown. -/
theorem header_may_lose_a_section :
    let text := "Goal(1) \x7b Title(\"T\"); KB \x7b PROC F() THEN DB_A(1); \x7d KB \x7b PROC G() THEN DB_B(1); \x7d \x7d"
    (parseHeader text).diagnostics = [] ∧ (parseHeader text).tree.goalTexts.length = 1
      ∧ ∀ made ∈ (parseHeader text).tree.goalTexts, (parseGoal made.2.1).diagnostics = []
          ∧ ∀ shown, Shows " PROC F() THEN DB_A(1); ".toList shown → ¬ shown <:+: made.2.1.toList := by
  intro text
  have hsilent : ∀ made ∈ (parseHeader text).tree.goalTexts, (parseGoal made.2.1).diagnostics = [] := by
    decide +kernel
  have hlost : ∀ made ∈ (parseHeader text).tree.goalTexts, 'F' ∉ made.2.1.toList := by
    decide +kernel
  refine ⟨by decide +kernel, by decide +kernel, fun made hmade => ⟨hsilent made hmade, ?_⟩⟩
  intro shown hshows hwithin
  exact hlost made hmade (hwithin.subset (hshows.mem (by decide) (by decide)))

end StoryCheck.Syntax
