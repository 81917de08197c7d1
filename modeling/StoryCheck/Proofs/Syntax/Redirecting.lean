import StoryCheck.Proofs.Syntax.WithoutPlaces
import StoryCheck.Proofs.Token.Spelling

/-!
# Parents with another name

A goal in which the options that name a goal as its parent name another one, as a tree and as a
text. In the text the new name is put between the quotes of the old one.

* **`Goal.redirected`** — a tree in which a parent has another name.
* **`Respells.redirected`** — a silent goal with the new name put in at these options.
* **`parseGoal_redirected`** — what is read from the text then.
* **`SilentOption.standsAt`** — where the string of an option stands in the text of the option.
-/

namespace StoryCheck

namespace Syntax

/-! ## Trees

What the name of a parent is in a tree, and the tree with another one. Options that are no edges are
left as they are. -/

/-- The goal that an option names as its parent. -/
def GoalOption.parent? (option : GoalOption) : Option String :=
  match option.value with
  | .string parent => if option.name = "ParentTargetEdge" then some parent else none
  | _ => none

/-- Another name for the parent, if the option names that one. -/
def GoalOption.redirected (oldName newName : String) (option : GoalOption) : GoalOption :=
  if option.parent? = some oldName then { option with value := .string newName } else option

/-- A parent has another name, and all else is the same. -/
def Goal.redirected (oldName newName : String) (goal : Goal) : Goal :=
  { goal with options := goal.options.map (·.redirected oldName newName) }

section Trees

variable {option : GoalOption} {goal : Goal} {parent oldName newName : String}

/-- An option names a parent if it is an edge with a text for its value. -/
theorem GoalOption.parent?_eq_some_iff :
    option.parent? = some parent ↔ option.value = .string parent ∧ option.name = "ParentTargetEdge" := by
  unfold parent?
  cases option.value with
  | string found => by_cases hname : option.name = "ParentTargetEdge" <;> simp [hname]
  | integer | identifier | missing => simp

/-- The edges of a goal, read off its options. -/
theorem Goal.parentEdges_eq (goal : Goal) :
    goal.parentEdges = goal.options.filterMap fun option => option.parent?.map (·, option.range) := by
  refine congrFun (congrArg _ (funext fun option => ?_)) _
  unfold GoalOption.parent?
  cases option.value with
  | string found => by_cases hname : option.name = "ParentTargetEdge" <;> simp [hname]
  | integer | identifier | missing => rfl

/-- The names of the parents, in order. -/
theorem Goal.map_parentEdges (goal : Goal) :
    goal.parentEdges.map (·.1) = goal.options.filterMap (·.parent?) := by
  rw [parentEdges_eq, List.map_filterMap]
  refine congrFun (congrArg _ (funext fun option => ?_)) _
  rw [Option.map_map]
  exact Option.map_id'

/-- The parents a goal names do not depend on places. -/
theorem Goal.map_parentEdges_withoutPlaces (goal : Goal) :
    goal.withoutPlaces.parentEdges.map (·.1) = goal.parentEdges.map (·.1) := by
  rw [map_parentEdges, map_parentEdges, withoutPlaces, List.filterMap_map]
  rfl

/-- The parents are the same, but for the one that has another name. -/
theorem Goal.map_parentEdges_redirected (goal : Goal) :
    (goal.redirected oldName newName).parentEdges.map (·.1)
      = (goal.parentEdges.map (·.1)).map fun parent => if parent = oldName then newName else parent := by
  rw [map_parentEdges, map_parentEdges, redirected, List.filterMap_map, List.map_filterMap]
  refine congrFun (congrArg _ (funext fun option => ?_)) _
  rw [Function.comp, GoalOption.redirected]
  split
  next hold =>
    have hname := (GoalOption.parent?_eq_some_iff.1 hold).2
    rw [hold]
    simp [GoalOption.parent?, hname]
  next hold =>
    cases hparent : option.parent? with
    | none => rfl
    | some parent =>
      rw [hparent] at hold
      have hne : parent ≠ oldName := fun h => hold (congrArg some h)
      simp [hne]

end Trees

/-! ## Silent goals

The tokens of a silent goal may have another string in an option without any other change, as every
string is accepted for a parent. -/

namespace SilentOption

variable {placement : OptionPlacement} {oldName newName : String}

/-- The option of a parent has a string, and may have any other. -/
theorem of_parent {option : SilentOption placement} (h : option.tree.parent? = some oldName) :
    option.token.kind = .string ∧ option.token.value = oldName
      ∧ ∀ newName, optionProblem option.name.1.value (.string newName) placement = none := by
  obtain ⟨name, token, value, reads, accepted, semicolon⟩ := option
  obtain ⟨hvalue, hname⟩ := GoalOption.parent?_eq_some_iff.1 h
  obtain rfl : value = .string oldName := hvalue
  replace hname : name.1.value = "ParentTargetEdge" := hname
  obtain ⟨n, -, -, hn⟩ | ⟨-, hn⟩ | ⟨hkind, hn⟩ := GoalOption.optionValue_cases reads nofun
  · cases hn
  · cases hn
  · refine ⟨hkind, (OptionValue.string.inj hn).symm, fun newName => ?_⟩
    dsimp only at accepted ⊢
    rw [hname] at accepted ⊢
    cases placement with
    | header => simp [optionProblem] at accepted
    | footer => rfl

/-- A silent option that names another parent, if it named this one. The new name is accepted since
any text is. -/
def redirected (oldName newName : String) (option : SilentOption placement) :
    SilentOption placement :=
  if h : option.tree.parent? = some oldName then
    { option with
      token := { option.token with value := newName }
      value := .string newName
      reads := by simp [optionValue?, (of_parent h).1]
      accepted := (of_parent h).2.2 newName }
  else option

/-- Its tree is the redirected tree. -/
theorem withoutPlaces_redirected (option : SilentOption placement) :
    (option.redirected oldName newName).tree.withoutPlaces
      = (option.tree.redirected oldName newName).withoutPlaces := by
  unfold redirected GoalOption.redirected
  split
  · rfl
  · rfl

/-- The new name between the quotes of the old one. -/
def edgePatch? (oldName newName : String) (option : SilentOption placement) : Option Patch :=
  if option.tree.parent? = some oldName then
    some ⟨⟨option.token.range.span.start + 1, option.token.range.span.stop - 1⟩, newName.toList⟩
  else none

end SilentOption

namespace SilentGoal

variable {oldName newName : String}

/-- A silent goal with all its options redirected. -/
def redirected (oldName newName : String) (goal : SilentGoal) : SilentGoal :=
  { goal with
    header := goal.header.map (·.redirected oldName newName)
    footer := goal.footer.map (·.redirected oldName newName) }

/-- Its tree is the redirected tree. -/
theorem withoutPlaces_redirected (goal : SilentGoal) :
    (goal.redirected oldName newName).tree.withoutPlaces
      = (goal.tree.redirected oldName newName).withoutPlaces := by
  simp only [tree, redirected, Goal.withoutPlaces, Goal.redirected, List.map_append, List.map_map,
    Function.comp_def, SilentOption.withoutPlaces_redirected]

/-- The patches for all options of a goal that name the parent. -/
def edgePatches (oldName newName : String) (goal : SilentGoal) : List Patch :=
  goal.header.filterMap (·.edgePatch? oldName newName)
    ++ goal.footer.filterMap (·.edgePatch? oldName newName)

end SilentGoal

end Syntax

namespace Respells

open Syntax

variable {tokens respelled : List Token} {patches : List Patch} {newName : String}

/-- Options are respelled one by one, each at its text if it names the parent. -/
theorem redirectedOptions {placement : OptionPlacement} (oldName : String)
    (plain : ∀ c ∈ newName.toList, c ∉ ['"', '\\', '\r', '\n'])
    (options : List (SilentOption placement)) (more : ∀ kind, Respells kind tokens patches respelled)
    (before : TokenKind) :
    Respells before (options.flatMap (·.tokens) ++ tokens)
      (options.filterMap (·.edgePatch? oldName newName) ++ patches)
      ((options.map (·.redirected oldName newName)).flatMap (·.tokens) ++ respelled) := by
  -- What follows an option is respelled by hypothesis.
  induction options generalizing before with
  | nil => exact more before
  | cons option options ih =>
    have hsemicolon (kind : TokenKind) : Respells kind
        (option.semicolon.toList.map (·.1) ++ (options.flatMap (·.tokens) ++ tokens)) _ _ :=
      keepAll _ ih
    by_cases hparent : option.tree.parent? = some oldName
    · have hoption : Respells before (option.name.1 :: _) _ _ :=
        .keep (.string (SilentOption.of_parent hparent).1 plain (hsemicolon .string))
      simpa [SilentOption.edgePatch?, SilentOption.redirected, hparent, SilentOption.tokens] using
        hoption
    · have hoption : Respells before (option.name.1 :: option.token :: _) _ _ :=
        .keep (.keep (hsemicolon _))
      simpa [SilentOption.edgePatch?, SilentOption.redirected, hparent, SilentOption.tokens] using
        hoption

/-- **A silent goal with the new name between the quotes of the old one.** -/
theorem redirected (oldName : String) (plain : ∀ c ∈ newName.toList, c ∉ ['"', '\\', '\r', '\n'])
    (goal : SilentGoal) (before : TokenKind) :
    Respells before goal.tokens (goal.edgePatches oldName newName)
      (goal.redirected oldName newName).tokens := by
  have hfooter := redirectedOptions oldName plain goal.footer fun _ => .nil
  have hmiddle (kind : TokenKind) : Respells kind (_ ++ (goal.footer.flatMap (·.tokens) ++ [])) _ _ :=
    keepAll (goal.initSection.1 :: goal.init.flatMap (·.tokens) ++ goal.kbSection.1
      :: goal.rules.flatMap (·.tokens) ++ goal.exitSection.1 :: goal.exit.flatMap (·.tokens)
      ++ [goal.endExitSection.1]) hfooter
  simpa [SilentGoal.tokens, SilentGoal.front, SilentGoal.back, SilentGoal.redirected,
    SilentGoal.edgePatches] using redirectedOptions oldName plain goal.header hmiddle before

end Respells

namespace Syntax

/-- **What is read with another name for a parent** is the tree with this name there. -/
theorem parseGoal_redirected {text : String} {goal : SilentGoal} {newName : String}
    (oldName : String) (htokens : (TokenList.ofText text).tokens = goal.tokens)
    (hlexical : (TokenList.ofText text).reports = [])
    (plain : ∀ c ∈ newName.toList, c ∉ ['"', '\\', '\r', '\n']) :
    let patches := goal.edgePatches oldName newName
    let patched := parseGoal (String.ofList (Patch.applyAll patches text.toList))
    patched.diagnostics = []
      ∧ patched.tree.withoutPlaces = (goal.tree.redirected oldName newName).withoutPlaces := by
  rw [← goal.withoutPlaces_redirected]
  exact parseGoal_respelled htokens hlexical (.redirected oldName plain goal .endOfFile)

/-! ## Where the strings of options stand

The edit is made in the text of the option, between its first and its last quotation mark. If an
option has no others, these are the quotes of its string. -/

/-- The string of an option stands in the text of the option. -/
theorem SilentOption.standsAt {text : String} {placement : OptionPlacement}
    {option : SilentOption placement} (hsub : option.tokens.Sublist (TokenList.ofText text).tokens)
    (hlexical : (TokenList.ofText text).reports = []) (hkind : option.token.kind = .string) :
    ∃ before after,
      slice option.tree.range.span.start option.tree.range.span.stop text.toList
        = before ++ '"' :: (option.token.value.toList ++ '"' :: after)
      ∧ option.token.range.span.start = option.tree.range.span.start + byteLength before
      ∧ option.token.range.span.stop
        = option.token.range.span.start + (1 + byteLength option.token.value.toList + 1) := by
  have hplaced (token : Token) (hmem : token ∈ option.tokens) : token.range.IsIn text :=
    TokenList.isIn_ofText text token (List.mem_append_left _ (hsub.subset hmem))
  have hordered : option.tokens.Pairwise fun a b => a.range.span.stop ≤ b.range.span.start :=
    (List.pairwise_append.1 (TokenList.ordered_ofText text).pairwise).1.sublist hsub
  have hname := hplaced option.name.1 (by simp [tokens])
  have hvalue := hplaced option.token (by simp [tokens])
  have hfirst : option.name.1.range.span.stop ≤ option.token.range.span.start :=
    (List.pairwise_cons.1 hordered).1 _ (by simp)
  have hlast : IsBoundary text.toList option.tree.range.span.stop
      ∧ option.token.range.span.stop ≤ option.tree.range.span.stop := by
    -- An option ends with its value or with the semicolon behind that.
    obtain ⟨name, token, value, reads, accepted, _ | semicolon⟩ := option
    · exact ⟨hvalue.stops, Nat.le_refl _⟩
    · have hsemicolon := hplaced semicolon.1 (by simp [tokens])
      have hbehind : token.range.span.stop ≤ semicolon.1.range.span.start :=
        (List.pairwise_cons.1 (List.pairwise_cons.1 hordered).2).1 _ (by simp)
      exact ⟨hsemicolon.stops, Nat.le_trans hbehind hsemicolon.start_le_stop⟩
  have hmem : option.token ∈ (TokenList.ofText text).tokens := hsub.subset (by simp [tokens])
  obtain ⟨hstring, hstop⟩ := TokenList.standsAt_string (.ofText text) (.ofText text)
    (show byteLength [] = 0 from rfl) hlexical hmem hkind
  obtain ⟨before, hbefore, hstart⟩ := StandsAt.of_boundaries hname.starts hvalue.starts
    (Nat.le_trans hname.start_le_stop hfirst)
  obtain ⟨after, hafter, hend⟩ := StandsAt.of_boundaries hvalue.stops hlast.1 hlast.2
  -- From the name to the end the text is what stands before the string, the string in its quotes
  -- and what stands behind it.
  have hall : StandsAt text.toList option.name.1.range.span.start
      (before ++ ('"' :: (option.token.value.toList ++ ['"']) ++ after)) := by
    rw [hstart] at hstring hstop
    rw [hstop] at hafter
    exact hbefore.append (hstring.append hafter)
  have hslice := hall.slice_eq
  have hquote : '"'.utf8Size = 1 := by decide
  simp only [byteLength_append, byteLength_cons, byteLength_nil, hquote] at hstop hslice
  have hrange : option.tree.range.span.start = option.name.1.range.span.start := by
    obtain ⟨name, token, value, reads, accepted, _ | semicolon⟩ := option <;> rfl
  refine ⟨before, after, ?_, by rw [hrange, hstart], by omega⟩
  rw [hrange, hend, hstop, hstart]
  convert hslice using 2
  · omega
  · simp

end Syntax

end StoryCheck
