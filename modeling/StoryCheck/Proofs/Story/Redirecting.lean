import StoryCheck.Proofs.Story.Renaming
import StoryCheck.Proofs.Syntax.Redirecting

/-!
# Goals with another name

The edits that give a goal another name where it is a parent, put in, and the texts read again. An
edit goes from the first to the last quotation mark of the text of an option. These are the quotes
of the name unless a comment in the option has some, too.

* **`betweenQuotes?_of_count`** — where a name stands between the only quotation marks of a text.
* **`StoryGoal.QuotesOnly`** — no other quotation marks stand in the options that name a parent.
* **`renamed_goal_is_read`** — the texts are read as the trees with the new name of the parent.
-/

namespace StoryCheck

open Syntax

/-- Whether the options of a goal that name a parent have no quotation marks but those of the name. -/
def StoryGoal.QuotesOnly (goal : StoryGoal) (parent : String) : Prop :=
  ∀ edge ∈ goal.tree.parentEdges, edge.1 = parent →
    (slice edge.2.span.start edge.2.span.stop goal.text.toList).count '"'
      = parent.toList.count '"' + 2

instance (goal : StoryGoal) (parent : String) : Decidable (goal.QuotesOnly parent) :=
  inferInstanceAs (Decidable (∀ edge ∈ goal.tree.parentEdges, edge.1 = parent → _ = _))

namespace Story

variable {goal : StoryGoal} {oldName newName : String}

/-- Between the first and the last quotation mark of a text stands the name, if there are no more. -/
theorem betweenQuotes?_of_count {before name after : List Char}
    (hcount : (before ++ '"' :: (name ++ '"' :: after)).count '"' = name.count '"' + 2) :
    betweenQuotes? (before ++ '"' :: (name ++ '"' :: after))
      = some ⟨byteLength before + 1, byteLength before + 1 + byteLength name⟩ := by
  have hquote : '"'.utf8Size = 1 := by decide
  simp only [List.count_append, List.count_cons_self] at hcount
  have hbefore : ∀ c ∈ before, decide (c ≠ '"') = true := fun c hc =>
    decide_eq_true fun h => List.count_eq_zero.1 (by omega : before.count '"' = 0) (h ▸ hc)
  have hafter : ∀ c ∈ after.reverse, decide (c ≠ '"') = true := fun c hc =>
    decide_eq_true fun h => List.count_eq_zero.1 (by omega : after.count '"' = 0)
      (h ▸ List.mem_reverse.1 hc)
  have hfirst : (before ++ '"' :: (name ++ '"' :: after)).takeWhile (· ≠ '"') = before := by
    rw [List.takeWhile_append_of_pos hbefore]
    simp
  have hlast : dropEndWhile (· ≠ '"') (before ++ '"' :: (name ++ '"' :: after))
      = (before ++ '"' :: name) ++ ['"'] := by
    rw [dropEndWhile, show (before ++ '"' :: (name ++ '"' :: after)).reverse
      = after.reverse ++ '"' :: (name.reverse ++ '"' :: before.reverse) by simp,
      List.dropWhile_append_of_pos hafter]
    simp
  rw [betweenQuotes?]
  simp only [hfirst, hlast, List.dropLast_concat, byteLength_append, byteLength_cons, hquote]
  rw [if_pos (by omega), ← Nat.add_assoc]

/-- The edits that give a parent of a goal another name. -/
def renameParents (oldName newName : String) (goal : StoryGoal) : List TextEdit :=
  goal.tree.parentEdges.filterMap fun (parent, option) =>
    if parent = oldName then renameEdge? goal option newName else none

/-- An edit is made in the text of the goal. -/
theorem uri_of_mem_renameParents {edit : TextEdit} (h : edit ∈ renameParents oldName newName goal) :
    edit.uri = goal.uri := by
  obtain ⟨⟨parent, option⟩, -, hedit⟩ := List.mem_filterMap.1 h
  dsimp only at hedit
  split at hedit
  · obtain ⟨span, -, rfl⟩ := Option.map_eq_some_iff.1 hedit
    rfl
  · cases hedit

/-- The edit at an option is between the quotes of its string. -/
theorem patch_renameEdge? {placement : OptionPlacement} {option : SilentOption placement}
    (hsub : option.tokens.Sublist (TokenList.ofText goal.text).tokens)
    (hlexical : (TokenList.ofText goal.text).reports = []) (hmem : option.tree ∈ goal.tree.options)
    (hquotes : goal.QuotesOnly oldName) :
    ((option.tree.parent?.map (·, option.tree.range)).bind fun (parent, range) =>
      if parent = oldName then renameEdge? goal range newName else none).map TextEdit.patch
        = option.edgePatch? oldName newName := by
  cases hparent : option.tree.parent? with
  | none => simp [SilentOption.edgePatch?, hparent]
  | some parent =>
    by_cases hold : parent = oldName
    · subst hold
      have hedge : (parent, option.tree.range) ∈ goal.tree.parentEdges := by
        rw [Goal.parentEdges_eq]
        exact List.mem_filterMap.2 ⟨option.tree, hmem, by simp [hparent]⟩
      obtain ⟨hkind, hvalue, -⟩ := SilentOption.of_parent hparent
      obtain ⟨before, after, hslice, hstart, hstop⟩ := SilentOption.standsAt hsub hlexical hkind
      have hcount := hquotes _ hedge rfl
      rw [hvalue] at hslice hstop
      dsimp only at hcount
      rw [hslice] at hcount
      simp only [Option.map_some, Option.bind_some, if_true, renameEdge?, hslice,
        betweenQuotes?_of_count hcount, SilentOption.edgePatch?, hparent, TextEdit.patch]
      congr 3
      · omega
      · omega
    · simp [SilentOption.edgePatch?, hparent, hold]

/-- **The edits at the options of a silent goal** are between the quotes of their strings. -/
theorem patches_renameParents {written : SilentGoal} (htree : goal.tree = written.tree)
    (htokens : (TokenList.ofText goal.text).tokens = written.tokens)
    (hlexical : (TokenList.ofText goal.text).reports = []) (hquotes : goal.QuotesOnly oldName) :
    (renameParents oldName newName goal).map TextEdit.patch = written.edgePatches oldName newName := by
  have hoptions : goal.tree.options
      = written.header.map (·.tree) ++ written.footer.map (·.tree) := by rw [htree]; rfl
  -- Patches are the same option by option, in the header as in the footer, whose tokens both stand
  -- in the goal in order.
  have hpatch {placement : OptionPlacement} (options : List (SilentOption placement))
      (htree : ∀ option ∈ options, option.tree ∈ goal.tree.options)
      (hsub : (options.flatMap (·.tokens)).Sublist written.tokens) :
      ((options.map (·.tree)).filterMap fun option =>
        ((option.parent?.map (·, option.range)).bind fun (parent, range) =>
          if parent = oldName then renameEdge? goal range newName else none).map TextEdit.patch)
        = options.filterMap (·.edgePatch? oldName newName) := by
    rw [List.filterMap_map]
    refine List.filterMap_congr fun option hmem => ?_
    have hown : option.tokens.Sublist (options.flatMap (·.tokens)) :=
      List.sublist_flatten_of_mem (List.mem_map_of_mem hmem)
    exact patch_renameEdge? (htokens ▸ hown.trans hsub) hlexical (htree option hmem) hquotes
  have hheader : (written.header.flatMap (·.tokens)).Sublist written.tokens := by
    simp [SilentGoal.tokens, SilentGoal.front]
  have hfooter : (written.footer.flatMap (·.tokens)).Sublist written.tokens := by
    have hback : (written.footer.flatMap (·.tokens)).Sublist written.back :=
      (List.sublist_cons_self ..).trans (List.sublist_append_right _ _)
    exact hback.trans ((List.sublist_append_right _ _).trans (List.sublist_append_right _ _))
  rw [renameParents, Goal.parentEdges_eq, List.filterMap_filterMap, List.map_filterMap, hoptions,
    List.filterMap_append, SilentGoal.edgePatches]
  refine congrArg₂ _ (hpatch _ (fun option hmem => ?_) hheader)
    (hpatch _ (fun option hmem => ?_) hfooter)
  · rw [hoptions]
    exact List.mem_append_left _ (List.mem_map_of_mem hmem)
  · rw [hoptions]
    exact List.mem_append_right _ (List.mem_map_of_mem hmem)

/-- **A goal with another name is another name of a parent, and of nothing else.** Whatever was done
to a story, if its own goals have addresses of their own, reading them reported nothing and the
options that name the goal as a parent have no quotation marks but those of its name, then the texts
with the edits are read without a report, as the same trees with the new name for this parent. The
new name is any text that neither closes nor breaks a string. -/
theorem renamed_goal_is_read (steps : List Step) (oldName newName : String)
    (huris : ((after steps).goals.ownGoals.map (·.uri)).Nodup)
    (hsilent : ∀ goal ∈ (after steps).goals.ownGoals, goal.readingReports = [])
    (hplain : ∀ c ∈ newName.toList, c ∉ ['"', '\\', '\r', '\n'])
    (hquotes : ∀ goal ∈ (after steps).goals.ownGoals, goal.QuotesOnly oldName) :
    let edits := (after steps).renameGoal oldName newName
    edits.Pairwise TextEdit.Precedes
      ∧ ∀ goal ∈ (after steps).goals.ownGoals,
        let edited := parseGoal (TextEdit.applyAll edits goal.uri goal.text)
        edited.diagnostics = []
          ∧ edited.tree.withoutPlaces = (goal.tree.redirected oldName newName).withoutPlaces
          ∧ edited.tree.parentEdges.map (·.1)
            = (goal.tree.parentEdges.map (·.1)).map fun parent =>
              if parent = oldName then newName else parent := by
  intro edits
  have hfilter (goal : StoryGoal) (hmem : goal ∈ (after steps).goals.ownGoals) :
      edits.filter (·.uri = goal.uri) = renameParents oldName newName goal :=
    filter_flatMap_edits _ (fun _ _ => uri_of_mem_renameParents) huris hmem
  -- No lexical, syntactic or option report is left, so that each goal is a written one.
  have hwritten (goal : StoryGoal) (hmem : goal ∈ (after steps).goals.ownGoals) :
      ∃ written : SilentGoal, (TokenList.ofText goal.text).tokens = written.tokens
        ∧ goal.tree = written.tree ∧ (TokenList.ofText goal.text).reports = [] := by
    rw [(isRead_after steps hmem).1]
    exact exists_silent (diagnostics_eq_nil steps hmem (hsilent goal hmem))
  constructor
  · refine TextEdit.pairwise_precedes fun edit hedit => ?_
    obtain ⟨goal, hmem, hedit⟩ := List.mem_flatMap.1 hedit
    obtain ⟨written, htokens, htree, hlexical⟩ := hwritten goal hmem
    rw [uri_of_mem_renameParents hedit, hfilter goal hmem]
    have hrespells := Respells.redirected oldName hplain written .endOfFile
    rw [← htokens, ← patches_renameParents htree htokens hlexical (hquotes goal hmem)] at hrespells
    exact (List.pairwise_map.1 (TokenList.ordered_patches hrespells)).imp And.right
  · intro goal hmem
    obtain ⟨written, htokens, htree, hlexical⟩ := hwritten goal hmem
    obtain ⟨hclean, hread⟩ := parseGoal_redirected oldName htokens hlexical hplain
    rw [← htree, ← patches_renameParents htree htokens hlexical (hquotes goal hmem),
      ← hfilter goal hmem] at hread
    rw [← patches_renameParents htree htokens hlexical (hquotes goal hmem),
      ← hfilter goal hmem] at hclean
    refine ⟨hclean, hread, ?_⟩
    rw [← Goal.map_parentEdges_redirected, ← Goal.map_parentEdges_withoutPlaces,
      ← Goal.map_parentEdges_withoutPlaces (goal.tree.redirected oldName newName), ← hread]
    rfl

/-- A story of one goal, which names another as its parent with a comment in between. -/
def onlyChild (comment : String) : List Step :=
  [.restart { header := .inMemory "story_header" "", goals := [] },
    .update "A" "memory:///A" ("INITSECTION KBSECTION EXITSECTION ENDEXITSECTION ParentTargetEdge "
      ++ comment ++ "\"Old\" ;") .local,
    .finish]

/-- The parent has the new name then. -/
theorem only_child_is_redirected : ∃ goal ∈ (after (onlyChild "/* up */ ")).goals.ownGoals,
    let edits := (after (onlyChild "/* up */ ")).renameGoal "Old" "New"
    let edited := parseGoal (TextEdit.applyAll edits goal.uri goal.text)
    edited.diagnostics = [] ∧ edited.tree.parentEdges.map (·.1) = ["New"] := by
  have hstory : ((after (onlyChild "/* up */ ")).goals.ownGoals.map (·.uri)).Nodup
      ∧ (∀ goal ∈ (after (onlyChild "/* up */ ")).goals.ownGoals, goal.readingReports = []
        ∧ goal.QuotesOnly "Old" ∧ goal.tree.parentEdges.map (·.1) = ["Old"])
      ∧ (after (onlyChild "/* up */ ")).goals.ownGoals ≠ [] := by
    decide +kernel
  obtain ⟨huris, hgoals, hsome⟩ := hstory
  obtain ⟨goal, hmem⟩ := List.exists_mem_of_ne_nil _ hsome
  obtain ⟨hclean, -, hparents⟩ := (renamed_goal_is_read (onlyChild "/* up */ ") "Old" "New" huris
    (fun goal hmem => (hgoals goal hmem).1) (by simp)
    (fun goal hmem => (hgoals goal hmem).2.1)).2 goal hmem
  refine ⟨goal, hmem, hclean, ?_⟩
  rw [hparents, (hgoals goal hmem).2.2]
  rfl

/-- Quotation marks in a comment take the place of those of the name: the option has no value then. -/
theorem quoted_comment_is_replaced :
    ((after (onlyChild "// the \"Old\" one\n")).goals.ownGoals.map (·.uri)).Nodup
      ∧ (∀ goal ∈ (after (onlyChild "// the \"Old\" one\n")).goals.ownGoals,
        goal.readingReports = [])
      ∧ ∃ goal ∈ (after (onlyChild "// the \"Old\" one\n")).goals.ownGoals,
        let edits := (after (onlyChild "// the \"Old\" one\n")).renameGoal "Old" "New"
        let edited := parseGoal (TextEdit.applyAll edits goal.uri goal.text)
        edited.diagnostics ≠ [] ∧ edited.tree.parentEdges = [] := by
  decide +kernel

end Story

end StoryCheck
