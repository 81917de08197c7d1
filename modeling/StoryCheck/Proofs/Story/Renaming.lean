import StoryCheck.Proofs.Story.Known
import StoryCheck.Proofs.Syntax.Renaming
import StoryCheck.Proofs.Token.Spelling
import StoryCheck.Story.Query

/-!
# Symbols with another name

The edits that give a symbol another name, put in, and the texts read again. The edits of all goals
come in one list; those of a goal are told by its address, and no one else has it.

* **`TextEdit.applyAll`** — a text with the edits for its address.
* **`filter_renameSymbol`** — the edits for the address of a goal are those at its calls.
* **`renamed_symbol_is_read`** — the texts are read as the trees with the new name at these calls.
-/

namespace StoryCheck

open Syntax

/-! ## Edits

A client carries out edits text by text. If those for one text stand in order and apart, each can be
applied where it was meant. -/

namespace TextEdit

def patch (edit : TextEdit) : Patch := ⟨edit.span, edit.text.toList⟩

/-- A text with the edits for its address, which stand one behind the other. -/
def applyAll (edits : List TextEdit) (uri text : String) : String :=
  String.ofList (Patch.applyAll ((edits.filter (·.uri = uri)).map patch) text.toList)

/-- Whether an edit ends in front of another, unless that is for another text. -/
def Precedes (edit other : TextEdit) : Prop :=
  edit.uri = other.uri → edit.span.stop ≤ other.span.start

/-- Edits stand in order if those for each text do. -/
theorem pairwise_precedes {edits : List TextEdit}
    (h : ∀ edit ∈ edits, (edits.filter (·.uri = edit.uri)).Pairwise
      fun a b => a.span.stop ≤ b.span.start) : edits.Pairwise Precedes := by
  induction edits with
  | nil => exact .nil
  | cons edit edits ih =>
    refine .cons (fun other hmem huri => ?_) (ih fun other hmem => ?_)
    · have hfirst := h edit List.mem_cons_self
      rw [List.filter_cons_of_pos (by simp)] at hfirst
      exact List.rel_of_pairwise_cons hfirst (List.mem_filter.2 ⟨hmem, by simp [huri]⟩)
    · exact (h other (List.mem_cons_of_mem _ hmem)).sublist ((List.sublist_cons_self ..).filter _)

end TextEdit

namespace Story

variable {story : Story} {goal : StoryGoal} {goals : List StoryGoal} {key : SymbolKey}
  {newName : String}

/-- Of edits that each goal makes to its own text, those for the address of a goal are its own. -/
theorem filter_flatMap_edits (edits : StoryGoal → List TextEdit)
    (huri : ∀ goal, ∀ edit ∈ edits goal, edit.uri = goal.uri)
    (hnodup : (goals.map (·.uri)).Nodup) (hmem : goal ∈ goals) :
    (goals.flatMap edits).filter (·.uri = goal.uri) = edits goal := by
  have hown : (edits goal).filter (·.uri = goal.uri) = edits goal :=
    List.filter_eq_self.2 fun edit hedit => by simp [huri goal edit hedit]
  have hothers (others : List StoryGoal) (h : ∀ other ∈ others, other.uri ≠ goal.uri) :
      (others.flatMap edits).filter (·.uri = goal.uri) = [] := by
    refine List.filter_eq_nil_iff.2 fun edit hedit => ?_
    obtain ⟨other, hother, hedit⟩ := List.mem_flatMap.1 hedit
    simpa [huri other edit hedit] using h other hother
  obtain ⟨front, back, rfl⟩ := List.append_of_mem hmem
  rw [List.map_append, List.map_cons, List.nodup_middle, List.nodup_cons] at hnodup
  have hapart (other : StoryGoal) (hother : other ∈ front ++ back) : other.uri ≠ goal.uri := by
    intro heq
    refine hnodup.1 ?_
    rw [← List.map_append, ← heq]
    exact List.mem_map_of_mem hother
  rw [List.flatMap_append, List.flatMap_cons, List.filter_append, List.filter_append, hown,
    hothers front fun other h => hapart other (List.mem_append_left _ h),
    hothers back fun other h => hapart other (List.mem_append_right _ h)]
  simp

/-! ## Edits at calls

Goals are told apart by their addresses. If two had the same, the edits for one would be carried out
in the other as well. -/

theorem uri_of_mem_renameCalls {edit : TextEdit} (h : edit ∈ renameCalls key newName goal) :
    edit.uri = goal.uri := by
  obtain ⟨call, -, rfl⟩ := List.mem_map.1 h
  rfl

theorem patches_renameCalls (key : SymbolKey) (newName : String) (goal : StoryGoal) :
    (renameCalls key newName goal).map TextEdit.patch
      = callPatches key newName.toList goal.tree.calls := by
  rw [renameCalls, List.map_map]
  rfl

/-- In a silent goal the edits stand one behind the other. -/
theorem ordered_renameCalls (key : SymbolKey) (hread : goal.tree = (parseGoal goal.text).tree)
    (hsilent : (parseGoal goal.text).diagnostics = []) {name : List Char}
    (fits : IsNameText newName.toList name) :
    (renameCalls key newName goal).Pairwise
      fun a b => a.span.start ≤ b.span.start ∧ a.span.stop ≤ b.span.start := by
  have hordered := ordered_callPatches key hsilent fits
  rw [← hread, ← patches_renameCalls, List.pairwise_map] at hordered
  exact hordered

/-- **The edits for the address of a goal** are those at its calls. -/
theorem filter_renameSymbol (hnodup : (story.goals.ownGoals.map (·.uri)).Nodup)
    (hmem : goal ∈ story.goals.ownGoals)
    (hordered : (renameCalls key newName goal).Pairwise
      fun a b => a.span.start ≤ b.span.start ∧ a.span.stop ≤ b.span.start) :
    (story.renameSymbol key newName).filter (·.uri = goal.uri) = renameCalls key newName goal := by
  have hown := filter_flatMap_edits (renameCalls key newName) (fun _ _ => uri_of_mem_renameCalls)
    hnodup hmem
  let order : TextEdit → TextEdit → Ordering :=
    compareLex (compareOn fun edit => edit.uri) (compareOn fun edit => edit.span.start)
  have hsorted : (renameCalls key newName goal).Pairwise fun a b => (order a b).isLE := by
    refine hordered.imp_of_mem fun {a b} ha hb hab => ?_
    have huri : a.uri = b.uri := (uri_of_mem_renameCalls ha).trans (uri_of_mem_renameCalls hb).symm
    simp only [order, compareLex, compareOn, huri, Std.ReflCmp.compare_self, Ordering.then]
    exact Nat.isLE_compare.2 hab.1
  have htotal (a b : TextEdit) : ((order a b).isLE || (order b a).isLE) = true := by
    have hswap : order b a = (order a b).swap := Std.OrientedCmp.eq_swap
    rw [hswap]
    cases order a b <;> rfl
  rw [← hown] at hsorted
  exact (filter_mergeSort_of_pairwise (fun _ _ _ => Std.TransCmp.isLE_trans) htotal hsorted).trans
    hown

/-! ## Reading again

The name of each call is respelled and nothing else is touched. Reading the text again gives the
same tree with the new name at these calls. -/

/-- The goals of a story are what was read from their texts. -/
theorem isRead_after (steps : List Step) (hmem : goal ∈ (after steps).goals.ownGoals) :
    goal.tree = (parseGoal goal.text).tree
      ∧ goal.readingReports = (parseGoal goal.text).diagnostics.map (·.inFile goal.uri) := by
  refine holds_after
    (fun goal => goal.tree = (parseGoal goal.text).tree
      ∧ goal.readingReports = (parseGoal goal.text).diagnostics.map (·.inFile goal.uri))
    (fun _ _ _ _ => rfl) (fun name uri text origin => ?_) steps (List.mem_filter.1 hmem).1
  simp only [StoryGoal.ofText, and_self]

theorem diagnostics_eq_nil (steps : List Step) (hmem : goal ∈ (after steps).goals.ownGoals)
    (hsilent : goal.readingReports = []) : (parseGoal goal.text).diagnostics = [] := by
  rw [(isRead_after steps hmem).2] at hsilent
  exact List.map_eq_nil_iff.1 hsilent

/-- **A symbol with another name is another name at its calls, and at nothing else.** Whatever was
done to a story, if its own goals have addresses of their own and reading them reported nothing, the
edits that give a symbol another name stand one behind the other, and the texts with these edits are
read without a report, as the same trees with the new name at the calls of the symbol. The new name
is a text of one name, also with the bracket of a call behind it, and no line comment in it opens or
closes a region. -/
theorem renamed_symbol_is_read (steps : List Step) (key : SymbolKey) (newName name : String)
    (huris : ((after steps).goals.ownGoals.map (·.uri)).Nodup)
    (hsilent : ∀ goal ∈ (after steps).goals.ownGoals, goal.readingReports = [])
    (hname : (TokenList.ofText newName).tokens.map (fun token => (token.kind, token.value))
      = [(.identifier, name)])
    (hclean : (TokenList.ofText newName).reports = [])
    (hbracket : (TokenList.ofText (newName ++ "(")).tokens.map (·.kind) = [.identifier, .lParen])
    (hregion : KeepsRegion newName.toList) :
    let edits := (after steps).renameSymbol key newName
    edits.Pairwise TextEdit.Precedes
      ∧ ∀ goal ∈ (after steps).goals.ownGoals,
        let edited := parseGoal (TextEdit.applyAll edits goal.uri goal.text)
        edited.diagnostics = []
          ∧ edited.tree.withoutPlaces = (goal.tree.renamed key name).withoutPlaces := by
  intro edits
  -- By itself and in front of a bracket the new name is one identifier.
  have fits : IsNameText newName.toList name.toList := by
    obtain ⟨token, htokens, htoken⟩ := List.map_eq_singleton_iff.1 hname
    obtain ⟨hkind, rfl⟩ := Prod.mk.inj htoken
    have hcall : (Scanner.ofText (newName ++ "(")).rest = (Scanner.ofText newName).rest ++ ['('] :=
      String.toList_append
    have htwo := congrArg List.length hbracket
    rw [List.length_map] at htwo
    exact TokenList.isNameText_of_tokens _ _ (.ofText newName) _ htokens hkind hclean hcall htwo
      hregion
  have hordered (goal : StoryGoal) (hmem : goal ∈ (after steps).goals.ownGoals) :=
    ordered_renameCalls key (isRead_after steps hmem).1
      (diagnostics_eq_nil steps hmem (hsilent goal hmem)) fits
  have hfilter (goal : StoryGoal) (hmem : goal ∈ (after steps).goals.ownGoals) :
      edits.filter (·.uri = goal.uri) = renameCalls key newName goal :=
    filter_renameSymbol huris hmem (hordered goal hmem)
  constructor
  · refine TextEdit.pairwise_precedes fun edit hedit => ?_
    obtain ⟨goal, hmem, hedit⟩ := List.mem_flatMap.1 ((List.mergeSort_perm _ _).mem_iff.1 hedit)
    rw [uri_of_mem_renameCalls hedit, hfilter goal hmem]
    exact (hordered goal hmem).imp And.right
  · intro goal hmem
    have hread := parseGoal_renamed key (diagnostics_eq_nil steps hmem (hsilent goal hmem)) fits
    rw [← (isRead_after steps hmem).1, ← patches_renameCalls, ← hfilter goal hmem] at hread
    rwa [String.ofList_toList] at hread

/-- A story of one goal, which calls a symbol once. -/
def lonelyCaller : List Step :=
  [.restart { header := .inMemory "story_header" "", goals := [] },
    .update "A" "memory:///A" "INITSECTION Foo(1)\n; KBSECTION EXITSECTION ENDEXITSECTION" .local,
    .finish]

theorem lonely_caller_is_silent : ((after lonelyCaller).goals.ownGoals.map (·.uri)).Nodup
    ∧ (∀ goal ∈ (after lonelyCaller).goals.ownGoals, goal.readingReports = [])
    ∧ (after lonelyCaller).goals.ownGoals ≠ [] := by
  decide +kernel

/-- The call has the new name then, which it had not before. -/
theorem lonely_call_is_renamed : ∃ goal ∈ (after lonelyCaller).goals.ownGoals,
    let edits := (after lonelyCaller).renameSymbol ⟨"Foo", 1⟩ "Bar // one\n"
    let edited := parseGoal (TextEdit.applyAll edits goal.uri goal.text)
    edited.tree.withoutPlaces = (goal.tree.renamed ⟨"Foo", 1⟩ "Bar").withoutPlaces
      ∧ edited.tree.calls.map Call.key = [⟨"Bar", 1⟩] := by
  obtain ⟨huris, hsilent, hsome⟩ := lonely_caller_is_silent
  obtain ⟨goal, hmem⟩ := List.exists_mem_of_ne_nil _ hsome
  have hread := (renamed_symbol_is_read lonelyCaller ⟨"Foo", 1⟩ "Bar // one\n" "Bar" huris hsilent
    (by decide +kernel) (by decide +kernel) (by decide +kernel) (by decide +kernel)).2 goal hmem
  have hcalls : ∀ goal ∈ (after lonelyCaller).goals.ownGoals,
      (parseGoal (TextEdit.applyAll ((after lonelyCaller).renameSymbol ⟨"Foo", 1⟩ "Bar // one\n")
        goal.uri goal.text)).tree.calls.map Call.key = [⟨"Bar", 1⟩] := by
    decide +kernel
  exact ⟨goal, hmem, hread.2, hcalls goal hmem⟩

/-- A line comment behind the new name takes the rest of its line along. -/
theorem comment_behind_name_is_reported :
    ((after lonelyCaller).goals.ownGoals.map (·.uri)).Nodup
      ∧ (∀ goal ∈ (after lonelyCaller).goals.ownGoals, goal.readingReports = [])
      ∧ (TokenList.ofText "Bar//").tokens.map (fun token => (token.kind, token.value))
        = [(.identifier, "Bar")]
      ∧ ∃ goal ∈ (after lonelyCaller).goals.ownGoals,
        (parseGoal (TextEdit.applyAll ((after lonelyCaller).renameSymbol ⟨"Foo", 1⟩ "Bar//")
          goal.uri goal.text)).diagnostics ≠ [] := by
  decide +kernel

end Story

end StoryCheck
