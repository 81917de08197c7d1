import StoryCheck.Check
import StoryCheck.Proofs.Syntax.HeaderReports

/-!
# Who finds which problem

The kinds of problem are shared out. Reading finds those of tokens and of the grammar, and every
check has kinds of its own, so the kind of a report tells where it comes from.

* **`isOfReading_of_mem_parseGoal`** — the kinds of problem that reading a goal finds.
* **`Check.codes`**, **`Check.code_mem_codes`** — those that a check finds.
* **`Check.eq_of_mem_codes`** — no two checks find the same kind of problem.
-/

namespace StoryCheck

open Syntax

variable {d : Diagnostic}

/-! ## Reading

What is found while a text is read never is a problem of symbols or of goals. Reports of reading and
of checking can therefore be told apart by their codes alone. -/

/-- A lexeme of a bad shape is a problem of reading. -/
theorem Scanner.isOfReading_of_mem_complaint {lexeme : Lexeme} {span : Span}
    (hd : d ∈ complaint lexeme span) : d.code.isOfReading = true := by
  unfold complaint at hd
  split at hd
  case h_5 => cases hd
  all_goals
    obtain rfl := List.mem_singleton.1 hd
    rfl

/-- So is everything that is reported on the way to the tokens of a text. -/
theorem TokenList.isOfReading_of_mem_collect {index : LineIndex} (s : Scanner)
    (hd : d ∈ (collect index s).reports) : d.code.isOfReading = true := by
  -- The steps of the scanner are followed; each of them reports on one lexeme at most.
  induction s using collect.induct index with
  | case1 s hrest =>
    rw [collect_nil hrest] at hd
    cases hd
  | case2 s c cs hrest found ih =>
    rw [collect_cons hrest] at hd
    rcases List.mem_append.1 hd with hd | hd
    · have hd : d ∈ (s.step index c cs).reports := hd
      unfold Scanner.step at hd
      split at hd
      · cases hd
      · exact Scanner.isOfReading_of_mem_complaint hd
    · exact ih hd

/-- **What reading a goal reports is a problem of tokens or of the grammar.** -/
theorem isOfReading_of_mem_parseGoal {text : String} (hd : d ∈ (parseGoal text).diagnostics) :
    d.code.isOfReading = true := by
  have hgoal : Parse.Advances goal := Parse.advances_goal
  obtain ⟨taken, found, hpasses⟩ := hgoal (.ofTokens (.ofText text))
  rw [parseGoal, parseGoalTokens, StateT.run] at hd
  generalize goal (.ofTokens (.ofText text)) = result at *
  obtain ⟨tree, after⟩ := result
  rcases List.mem_append.1 (mem_sortBySpan.1 hd) with hd | hd
  · exact TokenList.isOfReading_of_mem_collect _ hd
  · have hfound : after.reports = found := hpasses.reports
    exact hpasses.codes d (hfound ▸ hd)

/-! ## Reports of some kinds

A check is put together from parts by a few operations. For each of them there is a lemma that says
which kinds the whole reports if the parts report theirs, so that the kinds of a check are found by
going through its text. -/

/-- Reports about problems of some kinds only. -/
def AreOf (codes : List Code) (ds : List Diagnostic) : Prop := ∀ d ∈ ds, d.code ∈ codes

namespace AreOf

variable {codes : List Code} {ds more : List Diagnostic}

/-- No report is of no wrong kind. -/
theorem nil : AreOf codes [] := nofun

/-- A single report. -/
theorem one (h : d.code ∈ codes) : AreOf codes [d] := by
  intro other hother
  rwa [List.mem_singleton.1 hother]

/-- The reports of a check are built in place, so that their kind can be read off where it is
written. -/
theorem error {code : Code} {message : String} {span : Span} (h : code ∈ codes) :
    AreOf codes [.error code message span] := one h

/-- The same for a warning. -/
theorem warning {code : Code} {message : String} {span : Span} (h : code ∈ codes) :
    AreOf codes [.warning code message span] := one h

/-- A check may report more kinds than one part of it does. -/
theorem mono {others : List Code} (h : AreOf codes ds) (hsubset : codes ⊆ others) : AreOf others ds :=
  fun d hd => hsubset (h d hd)

/-- What two parts report is reported by both. -/
theorem append (h : AreOf codes ds) (hmore : AreOf codes more) : AreOf codes (ds ++ more) :=
  fun d hd => (List.mem_append.1 hd).elim (h d) (hmore d)

/-- A report that is made under a condition is of the right kind if there is one. -/
theorem ite {c : Prop} [Decidable c] (h : AreOf codes ds) (hmore : AreOf codes more) :
    AreOf codes (if c then ds else more) := by
  split
  · exact h
  · exact hmore

/-- Reports that are made for each of several things. -/
theorem flatMap {α : Type} {l : List α} {f : α → List Diagnostic} (h : ∀ a, AreOf codes (f a)) :
    AreOf codes (l.flatMap f) := by
  intro d hd
  obtain ⟨a, -, hd⟩ := List.mem_flatMap.1 hd
  exact h a d hd

/-- Reports that are made for each call whose symbol is known. With the lemmas before it these are
all shapes in which checks are written. -/
theorem atCalls {context : CheckContext} {report : Call → StorySymbol → List Diagnostic}
    (h : ∀ call symbol, AreOf codes (report call symbol)) : AreOf codes (context.atCalls report) := by
  refine flatMap fun call => ?_
  cases context.symbol? call with
  | none => exact nil
  | some symbol => exact h call symbol

end AreOf

/-! ## Checks

For each check the shape of its definition is followed down to the single reports, and there the
kind is compared with the list. No proof looks at a message or a span. -/

namespace Check

/-- The kinds of problem that a check finds. -/
def codes : Check → List Code
  | usage => [.unresolvedSymbol, .databaseNeverWritten, .databaseNeverRead]
  | callKinds => [.undeclaredEvent, .misplacedCall, .invalidRuleHead]
  | arguments =>
    [.typeMismatch, .unknownType, .unboundVariable, .invalidFlow, .invalidEnumMember,
      .invalidPlaceholder, .unknownInstance, .instanceKindMismatch, .instanceNameMismatch]
  | guidStrings => [.invalidGuidString]
  | parents => [.unresolvedParentGoal]

/-- No two checks find the same kind of problem, so the kind of a report names its check. -/
theorem eq_of_mem_codes {check other : Check} :
    ∀ code ∈ check.codes, code ∈ other.codes → check = other := by
  cases check <;> cases other <;> decide

variable {context : CheckContext} {types : TypeRegistry} {environment : Environment}

/-- Whichever suggestion comes with it, a symbol that is not there is one kind of problem. -/
theorem code_unresolved {symbol : StorySymbol} {span : Span} :
    (unresolved context symbol span).code = .unresolvedSymbol := by
  unfold unresolved
  split <;> rfl

/-- The check of usage: symbols that are not there, and databases that are only written or only
read. -/
theorem areOf_usageReports : AreOf usage.codes (usageReports context) := by
  refine .atCalls fun call symbol => .ite (.one ?_) (.ite ?_ .nil)
  · rw [code_unresolved]
    decide
  · exact .ite (.warning (by decide)) (.ite (.warning (by decide)) .nil)

/-- The check of kinds: what is called at a place where it may not be called. -/
theorem areOf_callKindReports : AreOf callKinds.codes (callKindReports context) := by
  refine .atCalls fun call symbol => ?_
  cases hmisplaced : misplacement? context call symbol with
  | none => exact .nil
  | some problem =>
    obtain ⟨code, message⟩ := problem
    refine .error ?_
    -- The problem comes with its kind, which is one of three.
    unfold misplacement? at hmisplaced
    grind [codes]

/-- The check of strings that are handed over for instances. -/
theorem areOf_guidStringReports : AreOf guidStrings.codes (guidStringReports context) := by
  refine .atCalls fun call symbol => .ite .nil (.flatMap fun (wanted, parameter) => ?_)
  show AreOf _ (guidStringReport context.types wanted parameter.argument)
  unfold guidStringReport
  split
  · exact .ite (.error (by decide)) .nil
  · exact .nil

/-- The check of parents has one report for each edge that leads nowhere. -/
theorem areOf_parentReports : AreOf parents.codes (parentReports context) := by
  intro d hd
  obtain ⟨⟨parent, range⟩, -, rfl⟩ := List.mem_map.1 hd
  exact List.mem_singleton.2 rfl

/-! ### Arguments

The check of an argument is the longest one. It goes through what is written in front of the
argument, what the argument is and which way its value goes, and each of these parts has kinds of
its own. -/

/-- The kinds of problem that the check of arguments finds, apart from variables without a value. -/
def valueCodes : List Code :=
  [.typeMismatch, .unknownType, .invalidFlow, .invalidEnumMember, .invalidPlaceholder,
    .unknownInstance, .instanceKindMismatch, .instanceNameMismatch]

/-- Where no variable is looked at, the smaller list of kinds is enough. -/
theorem areOf_codes {ds : List Diagnostic} (h : AreOf valueCodes ds) : AreOf arguments.codes ds :=
  h.mono (by decide)

/-- A type that is written in front of an argument. -/
theorem areOf_writtenTypeReports {parameter : Parameter} :
    AreOf valueCodes (writtenTypeReports types parameter) := by
  unfold writtenTypeReports
  split
  · exact .ite (.error (by decide)) .nil
  · exact .nil

/-- A type that does not fit the parameter. -/
theorem areOf_typeReports {h : Handover} {found : ValueType} {isString : Bool} :
    AreOf valueCodes (typeReports types h found isString) :=
  .ite .nil (.ite .nil (.error (by decide)))

/-- What the list of objects has to say about an instance: it is not there, or it has another kind
or name. -/
theorem areOf_objectReports {index : Nat} {type : ValueType} {name guid : String} {span : Span} :
    AreOf valueCodes (objectReports environment index type name guid span) := by
  unfold objectReports
  split
  · exact .warning (by decide)
  · refine .append ?_ (.ite .nil (.warning (by decide)))
    split
    · exact .ite .nil (.warning (by decide))
    · exact .nil

/-- A constant is checked against the numbers, the members and the objects that a parameter admits. -/
theorem areOf_constantReports {h : Handover} :
    AreOf valueCodes (constantReports types environment h) := by
  -- One report on placeholders, one on members and one on objects, in this order.
  refine .append (.append (.ite (.error (by decide)) .nil) ?_) (.ite .nil ?_)
  · unfold memberReports
    split
    · exact .ite .nil (.warning (by decide))
    · exact .nil
  · split
    · exact areOf_objectReports
    · exact .nil

/-- A variable that is handed in where a symbol hands out. -/
theorem areOf_inputReports {m : Mention} {name : String} :
    AreOf valueCodes (inputReports context m name) := by
  unfold inputReports
  split
  · exact .nil
  · split
    · exact .nil
    · exact .ite (.error (by decide)) .nil

/-- Directions. Of all reports on an argument this one alone may be about a variable without a
value. -/
theorem areOf_flowReports {scope : RuleScope} {p : ScopedParameter} :
    AreOf arguments.codes (flowReports context scope p) := by
  unfold flowReports
  split
  · exact .ite (areOf_codes areOf_inputReports) (.error (by decide))
  · exact .ite .nil (.error (by decide))
  · exact .nil

/-- The value that a call is given. -/
theorem areOf_valueReports {scope : RuleScope} {call : Call} {p : ScopedParameter} :
    AreOf valueCodes (valueReports context scope call p) := by
  unfold valueReports
  split
  · exact .nil
  · refine .append ?_ (.ite areOf_constantReports .nil)
    split
    · exact areOf_typeReports
    · exact .nil

/-- The two sides of a comparison. -/
theorem areOf_comparisonReports {left right : ValueType} {span : Span} :
    AreOf valueCodes (comparisonReports types left right span) :=
  .ite .nil (.error (by decide))

/-- All reports on one mention in a rule: its written type, its direction, its value. -/
theorem areOf_mentionReports {scope : RuleScope} {before : Option ScopedParameter}
    {p : ScopedParameter} : AreOf arguments.codes (mentionReports context scope before p) := by
  refine .append (.append (areOf_codes areOf_writtenTypeReports) areOf_flowReports) ?_
  split
  · exact areOf_codes areOf_valueReports
  · exact .ite .nil (areOf_codes areOf_comparisonReports)

/-- All reports on one argument in a section. There are no variables in sections, so each of them is
reported as one without a value. -/
theorem areOf_sectionReports {call : Call} {index : Nat} {parameter : Parameter} :
    AreOf arguments.codes (sectionReports context call index parameter) := by
  refine .append (areOf_codes areOf_writtenTypeReports) ?_
  split
  · split
    · exact .error (by decide)
    · exact .error (by decide)
    · exact .nil
  · split
    · exact .append (areOf_codes areOf_typeReports) (areOf_codes areOf_constantReports)
    · exact .nil

/-- The check of arguments goes through the rules and then through the sections. -/
theorem areOf_argumentReports : AreOf arguments.codes (argumentReports context) :=
  .append (.flatMap fun _ => .flatMap fun (_, _) => areOf_mentionReports)
    (.flatMap fun _ => .flatMap fun (_, _) => areOf_sectionReports)

/-- **A check reports problems of its own kinds only.** -/
theorem code_mem_codes {check : Check} (hd : d ∈ check.reports context) : d.code ∈ check.codes := by
  cases check with
  | usage => exact areOf_usageReports d hd
  | callKinds => exact areOf_callKindReports d hd
  | arguments => exact areOf_argumentReports d hd
  | guidStrings => exact areOf_guidStringReports d hd
  | parents => exact areOf_parentReports d hd

end Check

end StoryCheck
