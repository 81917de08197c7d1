import StoryCheck.Proofs.Syntax.WrittenGoal

/-!
# Closing tokens

A signature is closed by a bracket and an action by a semicolon. Each of these tokens can be taken
out of a goal, which leaves a gap between the tokens in front of it and those behind it.

* **`Gap`** — a token that can be taken out, with those around it.
* **`WrittenGoal.closers`** — the gaps of a goal, one for each signature of a rule or an action and
  one for each action.
* **`WrittenGoal.whole_closers`** — filling a gap gives back the goal.
-/

namespace StoryCheck.Syntax

/-! ## Gaps

A gap can be seen from far and near: a signature has one before its bracket, and the same gap is one
of the action, the rule and the goal around it, with more tokens in front and behind. -/

/-- A token that can be taken out of others. -/
structure Gap where
  front : List Token
  token : Token
  back : List Token
deriving DecidableEq, Repr

namespace Gap

/-- The tokens with the one that can be taken out. -/
def whole (gap : Gap) : List Token := gap.front ++ gap.token :: gap.back

/-- What the token is called where it is missing. -/
def what (gap : Gap) : String :=
  if gap.token.kind = .semicolon then "';'" else "closing bracket ')'"

/-- The report that it is missing, made at the next token. -/
def report (gap : Gap) (ending : Token) : Diagnostic :=
  .missingToken gap.what (gap.back.headD ending).range.span

/-- The same gap with more tokens around it. -/
def within (gap : Gap) (before after : List Token) : Gap :=
  { gap with front := before ++ gap.front, back := gap.back ++ after }

/-- The whole around a gap that is seen from further off. -/
theorem whole_within (gap : Gap) (before after : List Token) :
    (gap.within before after).whole = before ++ gap.whole ++ after := by
  simp [whole, within]

/-- What is missing does not change by that. -/
theorem what_within (gap : Gap) (before after : List Token) :
    (gap.within before after).what = gap.what := rfl

/-- The gap of a semicolon behind some tokens. -/
def atSemicolon (front : List Token) (semicolon : TokenOf .semicolon) : Gap :=
  ⟨front, semicolon.1, []⟩

/-- At a semicolon a semicolon is missing. -/
theorem what_atSemicolon (front : List Token) (semicolon : TokenOf .semicolon) :
    (atSemicolon front semicolon).what = "';'" := if_pos semicolon.2

/-- The gaps of things that are written one behind the other. -/
def along {ω : Type} (tokens : ω → List Token) (gaps : ω → List Gap) : List ω → List Gap
  | [] => []
  | w :: more =>
    (gaps w).map (·.within [] (more.flatMap tokens))
      ++ (along tokens gaps more).map (·.within (tokens w) [])

/-- Gaps of one of several things are gaps of all of them in a row. -/
theorem whole_along {ω : Type} {tokens : ω → List Token} {gaps : ω → List Gap}
    (h : ∀ w, ∀ gap ∈ gaps w, gap.whole = tokens w) (written : List ω) :
    ∀ gap ∈ along tokens gaps written, gap.whole = written.flatMap tokens := by
  -- The gap is in the first or further on.
  induction written with
  | nil => exact nofun
  | cons w more ih =>
    intro gap hgap
    rcases List.mem_append.1 hgap with hgap | hgap
    · obtain ⟨inner, hinner, rfl⟩ := List.mem_map.1 hgap
      rw [whole_within, h w inner hinner, List.nil_append, List.flatMap_cons]
    · obtain ⟨inner, hinner, rfl⟩ := List.mem_map.1 hgap
      rw [whole_within, ih inner hinner, List.append_nil, List.flatMap_cons]

end Gap

namespace WrittenSignature

/-- The tokens of a signature up to its closing bracket. -/
def unclosed (signature : WrittenSignature) : List Token :=
  (signature.owner.toList.flatMap fun (owner, dot) => [owner.1, dot.1])
    ++ signature.name.1 :: signature.opening.1 :: signature.parameters.toList.flatMap (·.tokens)

/-- The closing bracket. -/
def closer (signature : WrittenSignature) : Gap := ⟨signature.unclosed, signature.closing.1, []⟩

/-- Filling the gap of a signature gives back its tokens. -/
theorem whole_closer (signature : WrittenSignature) : signature.closer.whole = signature.tokens := by
  simp [Gap.whole, closer, unclosed, tokens]

/-- What is missing there is a closing bracket. -/
theorem what_closer (signature : WrittenSignature) :
    signature.closer.what = "closing bracket ')'" := by
  simp [Gap.what, closer, signature.closing.2]

/-- A signature starts with a name and a dot or bracket behind it, closed or not. -/
theorem unclosed_cons (signature : WrittenSignature) :
    ∃ first second rest, signature.unclosed = first :: second :: rest ∧ first.kind = .identifier
      ∧ second.kind ∈ [TokenKind.lParen, .dot] := by
  obtain ⟨_ | ⟨owner, dot⟩, name, opening, parameters, closing⟩ := signature
  · exact ⟨_, _, _, rfl, name.2, by simp [opening.2]⟩
  · exact ⟨_, _, _, rfl, owner.2, by simp [dot.2]⟩

end WrittenSignature

/-- A comparison has no closing bracket. -/
def WrittenCondition.closers : WrittenCondition → List Gap
  | call negation signature => [signature.closer.within (negation.toList.map (·.1)) []]
  | comparison .. => []

/-- The gaps of a condition with the word in front of it. -/
def WrittenConjunct.closers (conjunct : WrittenConjunct) : List Gap :=
  conjunct.condition.closers.map (·.within [conjunct.and.1] [])

/-- The closing bracket and the semicolon of an action. -/
def WrittenAction.closers : WrittenAction → List Gap
  | goalCompleted word semicolon => [.atSemicolon [word.1] semicolon]
  | call negation signature semicolon =>
    [signature.closer.within (negation.toList.map (·.1)) [semicolon.1],
      .atSemicolon (negation.toList.map (·.1) ++ signature.tokens) semicolon]

/-- Those of several actions. -/
def WrittenAction.closersAlong (actions : List WrittenAction) : List Gap :=
  Gap.along tokens closers actions

namespace WrittenRule

/-- The tokens of a rule from THEN on. -/
def consequence (rule : WrittenRule) : List Token :=
  rule.mark.1 :: (rule.action :: rule.actions).flatMap (·.tokens)

/-- The gaps behind the keyword of a rule: the closing brackets of head and conditions, and what the
actions have. -/
def bodyClosers (rule : WrittenRule) : List Gap :=
  rule.head.closer.within [] (rule.conditions.flatMap (·.tokens) ++ rule.consequence)
    :: (Gap.along WrittenConjunct.tokens WrittenConjunct.closers rule.conditions).map
        (·.within rule.head.tokens rule.consequence)
    ++ (WrittenAction.closersAlong (rule.action :: rule.actions)).map
        (·.within (rule.head.tokens ++ rule.conditions.flatMap (·.tokens) ++ [rule.mark.1]) [])

/-- The gaps of a rule, its keyword in front. -/
def closers (rule : WrittenRule) : List Gap :=
  rule.bodyClosers.map (·.within [rule.keyword.1] [])

end WrittenRule

/-- The closing bracket of each signature of a goal, and the semicolon of each action. -/
def WrittenGoal.closers (goal : WrittenGoal) : List Gap :=
  (WrittenAction.closersAlong goal.init).map
      (·.within (goal.header.flatMap (·.tokens) ++ [goal.initSection.1])
        (goal.kbSection.1 :: (goal.rules.flatMap (·.tokens) ++ goal.back)))
    ++ (Gap.along WrittenRule.tokens WrittenRule.closers goal.rules).map
      (·.within goal.front goal.back)
    ++ (WrittenAction.closersAlong goal.exit).map
      (·.within (goal.front ++ goal.rules.flatMap (·.tokens) ++ [goal.exitSection.1])
        (goal.endExitSection.1 :: goal.footer.flatMap (·.tokens)))

/-- Filling a gap of a condition gives back its tokens. -/
theorem WrittenCondition.whole_closers (condition : WrittenCondition) :
    ∀ gap ∈ condition.closers, gap.whole = condition.tokens := by
  cases condition with
  | call negation signature =>
    intro gap hgap
    rw [List.mem_singleton.1 hgap, Gap.whole_within, signature.whole_closer, List.append_nil, tokens]
  | comparison left operator right => exact nofun

/-- Filling a gap of a condition with the word in front of it gives back the tokens of both. -/
theorem WrittenConjunct.whole_closers (conjunct : WrittenConjunct) :
    ∀ gap ∈ conjunct.closers, gap.whole = conjunct.tokens := by
  intro gap hgap
  obtain ⟨inner, hinner, rfl⟩ := List.mem_map.1 hgap
  rw [Gap.whole_within, conjunct.condition.whole_closers inner hinner, List.append_nil]
  rfl

/-- Filling a gap of an action gives back its tokens. -/
theorem WrittenAction.whole_closers (action : WrittenAction) :
    ∀ gap ∈ action.closers, gap.whole = action.tokens := by
  cases action with
  | goalCompleted word semicolon =>
    intro gap hgap
    rw [List.mem_singleton.1 hgap]
    rfl
  | call negation signature semicolon =>
    intro gap hgap
    simp only [closers, List.mem_cons, List.not_mem_nil, or_false] at hgap
    rcases hgap with rfl | rfl
    · rw [Gap.whole_within, signature.whole_closer, tokens]
    · rfl

/-- No action starts with a closing token. -/
theorem WrittenAction.front_ne_nil (action : WrittenAction) :
    ∀ gap ∈ action.closers, gap.front ≠ [] := by
  cases action <;> simp [closers, Gap.within, Gap.atSemicolon, WrittenSignature.closer,
    WrittenSignature.unclosed, WrittenSignature.tokens]

/-- Filling a gap of several actions gives back the tokens of all. -/
theorem WrittenAction.whole_closersAlong (actions : List WrittenAction) :
    ∀ gap ∈ closersAlong actions, gap.whole = actions.flatMap (·.tokens) :=
  Gap.whole_along whole_closers actions

/-- Filling a gap of a rule gives back its tokens. -/
theorem WrittenRule.whole_closers (rule : WrittenRule) :
    ∀ gap ∈ rule.closers, gap.whole = rule.tokens := by
  have hbody : ∀ gap ∈ rule.bodyClosers, gap.whole
      = rule.head.tokens ++ rule.conditions.flatMap (·.tokens) ++ rule.consequence := by
    intro gap hgap
    rcases List.mem_cons.1 hgap with rfl | hgap
    · simp [Gap.whole_within, rule.head.whole_closer]
    rcases List.mem_append.1 hgap with hgap | hgap
    · obtain ⟨inner, hinner, rfl⟩ := List.mem_map.1 hgap
      rw [Gap.whole_within, Gap.whole_along WrittenConjunct.whole_closers _ inner hinner]
    · obtain ⟨inner, hinner, rfl⟩ := List.mem_map.1 hgap
      rw [Gap.whole_within, WrittenAction.whole_closersAlong _ inner hinner]
      simp [consequence]
  intro gap hgap
  obtain ⟨inner, hinner, rfl⟩ := List.mem_map.1 hgap
  rw [Gap.whole_within, hbody inner hinner, List.append_nil]
  rfl

/-- Filling a gap of a goal gives back its tokens. -/
theorem WrittenGoal.whole_closers (goal : WrittenGoal) :
    ∀ gap ∈ goal.closers, gap.whole = goal.tokens := by
  intro gap hgap
  rcases List.mem_append.1 hgap with hgap | hgap
  · rcases List.mem_append.1 hgap with hgap | hgap
    · obtain ⟨inner, hinner, rfl⟩ := List.mem_map.1 hgap
      rw [Gap.whole_within, WrittenAction.whole_closersAlong _ inner hinner]
      simp [tokens, back]
    · obtain ⟨inner, hinner, rfl⟩ := List.mem_map.1 hgap
      rw [Gap.whole_within, Gap.whole_along WrittenRule.whole_closers _ inner hinner, goal.tokens_eq,
        List.append_assoc]
  · obtain ⟨inner, hinner, rfl⟩ := List.mem_map.1 hgap
    rw [Gap.whole_within, WrittenAction.whole_closersAlong _ inner hinner]
    simp [tokens_eq, back]

end StoryCheck.Syntax
