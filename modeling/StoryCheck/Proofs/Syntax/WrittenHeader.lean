import StoryCheck.Proofs.Syntax.WrittenGoal
import StoryCheck.Syntax.HeaderGrammar

/-!
# Written headers

The grammar of headers as data, like that of goals. A written header says of each of its tokens
what it is there for.

* **`WrittenHeader.tokens`** — the tokens, in order.
* **`WrittenHeader.trees`** — the entries that the tokens stand for.
* **`WrittenHeader.subordinate`** — the tokens that stand on the line of an option, in the signature
  of a declaration or in a goal, or say what an alias is for.
* **`WrittenHeader.meaningless`** — the tokens in the brackets behind signatures.
-/

namespace StoryCheck.Syntax

/-! ## Goals

The entries of a goal may come in any order and several times. -/

/-- The sections of a goal in a header. -/
inductive SectionKind where
  | init | kb | exit
deriving DecidableEq, Repr

namespace SectionKind

/-- The word in front of a section. -/
def word : SectionKind → String
  | init => "INIT"
  | kb => "KB"
  | exit => "EXIT"

/-- The entry of a section whose text stands in a span. -/
def entry : SectionKind → Option Span → GoalEntry
  | init => .init
  | kb => .kb
  | exit => .exit

/-- The section of a goal. -/
def of (goal : HeaderGoal) : SectionKind → Section
  | init => goal.init
  | kb => goal.kb
  | exit => goal.exit

end SectionKind

/-- `INIT { .. }`, `KB { .. }` or `EXIT { .. }` with any tokens up to the closing brace. -/
structure WrittenSection where
  kind : SectionKind
  word : Token
  reads : word.value = kind.word
  opening : TokenOf .lBrace
  inner : List Token
  plain : ∀ token ∈ inner, token.kind ≠ .rBrace
  closing : TokenOf .rBrace

namespace WrittenSection

/-- The tokens of a section: its word, the braces, and what stands between. -/
def tokens (block : WrittenSection) : List Token :=
  block.word :: block.opening.1 :: block.inner ++ [block.closing.1]

/-- From the opening to the closing brace. -/
def span (block : WrittenSection) : Span :=
  ⟨block.opening.1.range.span.stop, block.closing.1.range.span.start⟩

end WrittenSection

/-- `Title("..")`, `SubGoal(id)` or a section. -/
inductive WrittenGoalEntry where
  | title (word : Token) (reads : word.value = "Title") (opening : TokenOf .lParen)
    (title : TokenOf .string) (closing : TokenOf .rParen) (semicolon : Option (TokenOf .semicolon))
  | subGoal (word : Token) (reads : word.value = "SubGoal") (opening : TokenOf .lParen)
    (id : TokenOf .integer) (closing : TokenOf .rParen) (semicolon : Option (TokenOf .semicolon))
  | block (written : WrittenSection)

namespace WrittenGoalEntry

/-- The tokens of an entry, with its semicolon if there is one. -/
def tokens : WrittenGoalEntry → List Token
  | title word _ opening text closing semicolon =>
    word :: opening.1 :: text.1 :: closing.1 :: semicolon.toList.map (·.1)
  | subGoal word _ opening id closing semicolon =>
    word :: opening.1 :: id.1 :: closing.1 :: semicolon.toList.map (·.1)
  | block written => written.tokens

/-- The entry that the tokens stand for. -/
def tree : WrittenGoalEntry → GoalEntry
  | title _ _ _ text _ _ => .title (some text.1.value)
  | subGoal _ _ _ id _ _ => .subGoal (Decimal.int64? id.1.value.toList)
  | block written => written.kind.entry (some written.span)

/-- The section of a kind that an entry is. -/
def sectionOf? (kind : SectionKind) : WrittenGoalEntry → Option WrittenSection
  | block written => if written.kind = kind then some written else none
  | _ => none

end WrittenGoalEntry

/-- `Goal(id) { entries }`. -/
structure WrittenHeaderGoal where
  word : TokenOf .identifier
  reads : word.1.value = "Goal"
  opening : TokenOf .lParen
  id : TokenOf .integer
  closing : TokenOf .rParen
  brace : TokenOf .lBrace
  entries : List WrittenGoalEntry
  last : TokenOf .rBrace

namespace WrittenHeaderGoal

/-- The tokens of a goal, from its word to the closing brace. -/
def tokens (goal : WrittenHeaderGoal) : List Token :=
  goal.word.1 :: goal.opening.1 :: goal.id.1 :: goal.closing.1 :: goal.brace.1
    :: goal.entries.flatMap (·.tokens) ++ [goal.last.1]

/-- The goal that the tokens stand for. Of two entries for the same section the later one counts. -/
def tree (source : List Char) (goal : WrittenHeaderGoal) : HeaderGoal :=
  .ofEntries source ((Decimal.int64? goal.id.1.value.toList).getD 0) (goal.entries.map (·.tree))
    (rangeOf goal.tokens)

/-- The sections of a kind, in order. -/
def sections (goal : WrittenHeaderGoal) (kind : SectionKind) : List WrittenSection :=
  goal.entries.filterMap (·.sectionOf? kind)

end WrittenHeaderGoal

/-! ## Aliases and options

Neither of them declares anything. An option takes all tokens on its line. -/

/-- The base of an alias: a name or a number. -/
inductive WrittenBase where
  | named (token : TokenOf .identifier)
  | id (token : TokenOf .integer)

namespace WrittenBase

/-- The one token of a base. -/
def token : WrittenBase → Token
  | named token => token
  | id token => token

/-- The base that the token stands for; a number too large to be represented counts as zero. -/
def tree : WrittenBase → AliasBase
  | named token => .named token.1.value
  | id token => .id ((Decimal.int64? token.1.value.toList).getD 0)

end WrittenBase

/-- `alias_type {base} name`, perhaps with a semicolon. -/
structure WrittenAlias where
  word : TokenOf .identifier
  reads : word.1.value = "alias_type"
  opening : TokenOf .lBrace
  base : WrittenBase
  closing : TokenOf .rBrace
  name : TokenOf .identifier
  semicolon : Option (TokenOf .semicolon)

namespace WrittenAlias

/-- The tokens of an alias. -/
def tokens (written : WrittenAlias) : List Token :=
  written.word.1 :: written.opening.1 :: written.base.token :: written.closing.1 :: written.name.1
    :: written.semicolon.toList.map (·.1)

/-- The alias that the tokens stand for. -/
def tree (written : WrittenAlias) : TypeAlias :=
  ⟨written.name.1.value, written.base.tree, rangeOf written.tokens⟩

end WrittenAlias

/-- `option` or `version` and what stands behind it on its line. -/
structure WrittenLine where
  word : TokenOf .identifier
  reads : word.1.value ∈ ["option", "version"]
  rest : List Token
  same : ∀ token ∈ rest, token.range.first.line = word.1.range.first.line

/-- The tokens of a line, the word in front. -/
def WrittenLine.tokens (line : WrittenLine) : List Token := line.word.1 :: line.rest

/-! ## Declarations

What stands in the brackets behind a signature is not looked at, and so any tokens may be there. -/

/-- Brackets with any tokens up to the closing one, which may be missing at the end of the text. -/
structure WrittenTuple where
  opening : TokenOf .lParen
  inner : List Token
  plain : ∀ token ∈ inner, token.kind ≠ .rParen
  closing : Option (TokenOf .rParen)

/-- The tokens of brackets, the closing one if it is there. -/
def WrittenTuple.tokens (tuple : WrittenTuple) : List Token :=
  tuple.opening.1 :: tuple.inner ++ tuple.closing.toList.map (·.1)

/-- Keyword and signature, and perhaps brackets and a semicolon. -/
structure WrittenDeclaration where
  word : TokenOf .identifier
  kind : DeclarationKind
  reads : DeclarationKind.ofWord? word.1.value = some kind
  signature : WrittenSignature
  tuple : Option WrittenTuple
  semicolon : Option (TokenOf .semicolon)

namespace WrittenDeclaration

/-- The tokens of a declaration: word, signature, brackets, semicolon. -/
def tokens (written : WrittenDeclaration) : List Token :=
  written.word.1 :: written.signature.tokens ++ written.tuple.toList.flatMap (·.tokens)
    ++ written.semicolon.toList.map (·.1)

/-- The declaration that the tokens stand for. The brackets leave nothing in it but their place. -/
def tree (written : WrittenDeclaration) : Definition :=
  ⟨written.kind, written.signature.tree, rangeOf written.tokens⟩

end WrittenDeclaration

/-! ## Headers

A header has no order either: aliases, options, declarations and goals may be mixed. -/

/-- An entry of a header: an alias, a line of options, a declaration or a goal. -/
inductive WrittenEntry where
  | typeAlias (written : WrittenAlias)
  | line (written : WrittenLine)
  | declaration (written : WrittenDeclaration)
  | goal (written : WrittenHeaderGoal)

namespace WrittenEntry

/-- The tokens of an entry. -/
def tokens : WrittenEntry → List Token
  | typeAlias written => written.tokens
  | line written => written.tokens
  | declaration written => written.tokens
  | goal written => written.tokens

/-- The entries that the tokens stand for: none for the line of an option. -/
def trees (source : List Char) : WrittenEntry → List HeaderEntry
  | typeAlias written => [.typeAlias written.tree]
  | line _ => []
  | declaration written => [.definition written.tree]
  | goal written =>
    [.goal (written.tree source) ((written.entries.map (·.tree)).filterMap GoalEntry.block?)]

/-- The tokens that belong to something else than a declaration, or to its signature. -/
def subordinate : WrittenEntry → List Token
  | typeAlias written => [written.base.token, written.name.1]
  | line written => written.tokens
  | declaration written => written.signature.tokens
  | goal written => written.tokens

/-- The tokens in the brackets behind the signature. -/
def meaningless : WrittenEntry → List Token
  | declaration written => written.tuple.toList.flatMap (·.tokens)
  | _ => []

/-- The declaration that an entry is, if it is one. -/
def declaration? : WrittenEntry → Option WrittenDeclaration
  | declaration written => some written
  | _ => none

/-- The goal that an entry is, if it is one. -/
def goal? : WrittenEntry → Option WrittenHeaderGoal
  | goal written => some written
  | _ => none

end WrittenEntry

/-- Aliases, options, declarations and goals in any order. -/
structure WrittenHeader where
  entries : List WrittenEntry

namespace WrittenHeader

/-- The tokens of a header, entry by entry. -/
def tokens (header : WrittenHeader) : List Token := header.entries.flatMap (·.tokens)

/-- The entries that the tokens stand for. -/
def trees (source : List Char) (header : WrittenHeader) : List HeaderEntry :=
  header.entries.flatMap (·.trees source)

/-- The tokens that say nothing by themselves. -/
def subordinate (header : WrittenHeader) : List Token := header.entries.flatMap (·.subordinate)

/-- The tokens that nothing is made of. -/
def meaningless (header : WrittenHeader) : List Token := header.entries.flatMap (·.meaningless)

/-- The declarations of a header in order. -/
def declarations (header : WrittenHeader) : List WrittenDeclaration :=
  header.entries.filterMap (·.declaration?)

/-- The goals of a header in order. -/
def goals (header : WrittenHeader) : List WrittenHeaderGoal := header.entries.filterMap (·.goal?)

/-- The declarations among the entries are the trees of those that are written. -/
theorem definitions_trees (source : List Char) (header : WrittenHeader) :
    (header.trees source).filterMap (fun | .definition d => some d | _ => none)
      = header.declarations.map (·.tree) := by
  obtain ⟨entries⟩ := header
  unfold trees declarations
  -- Entry by entry; each one is a declaration or gives none.
  induction entries with
  | nil => rfl
  | cons entry entries ih =>
    rw [List.flatMap_cons, List.filterMap_append, ih]
    cases entry <;> rfl

/-- So are the goals. -/
theorem goals_trees (source : List Char) (header : WrittenHeader) :
    (header.trees source).filterMap (fun | .goal goal _ => some goal | _ => none)
      = header.goals.map (·.tree source) := by
  obtain ⟨entries⟩ := header
  unfold trees goals
  induction entries with
  | nil => rfl
  | cons entry entries ih =>
    rw [List.flatMap_cons, List.filterMap_append, ih]
    cases entry <;> rfl

end WrittenHeader

end StoryCheck.Syntax
