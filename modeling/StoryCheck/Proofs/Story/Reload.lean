import StoryCheck.Proofs.Story.Known
import StoryCheck.Proofs.Symbol.Acyclic
import StoryCheck.Proofs.Syntax.Sketch

/-!
# Edited stories and reloaded ones

However often a story was edited, its goals can be loaded again from their texts. For a symbol that
settles this makes no difference: the edited story and the reloaded one give it the same verdict and
the same types. Kinds agree for every symbol. The direction of a parameter may move when a goal is
read again, since its definitions then come last; it stays if no two definitions state different
directions.

* **`content_update`**, **`content_remove`**, **`content_finish`** — the texts and origins of the
  goals after changes.
* **`StoryInputs.withGoals`** — what to load for the goals of an edited story.
* **`exists_reload`** — it can be loaded, and gives the same goals.
* **`edited_eq_reloaded`** — edited and reloaded stories agree.
-/

namespace StoryCheck

open Syntax

/-- The same story with other goals of its own, kept in memory. -/
def StoryInputs.withGoals (inputs : StoryInputs) (goals : GoalList) : StoryInputs :=
  let sourcesOf (origin : GoalOrigin) : List TextSource :=
    (goals.goals.filter fun goal => goal.origin == origin).map fun goal =>
      .inMemory goal.name goal.text
  { inputs with sharedGoals := sourcesOf .shared, goals := sourcesOf .local }

namespace Story

variable {story : Story} {name : String}

/-! ## Texts and origins

What the steps of an edit do to the texts of goals, and to where these came from. -/

theorem isLasting_content : StoryGoal.IsLasting fun goal => (goal.text, goal.origin) := fun _ _ _ _ => rfl

theorem content_update (story : Story) (name uri text : String) (origin : GoalOrigin) :
    (story.update name uri text origin).story.goals.content
      = Function.update story.goals.content name (some (text, origin)) :=
  known_update isLasting_content story name uri text origin

theorem content_remove {outcome : Outcome} (hremove : story.remove? name = some outcome) :
    outcome.story.goals.content = Function.update story.goals.content name none :=
  known_remove isLasting_content hremove

theorem content_finish (story : Story) : story.finish.story.goals.content = story.goals.content :=
  known_finish isLasting_content story

theorem content_loadGoal {pending : PendingGoal} {outcome : Outcome}
    (hload : story.loadGoal pending = .ok outcome) : ∃ text,
      outcome.story.goals.content
        = Function.update story.goals.content pending.source.name (some (text, pending.origin)) := by
  unfold Story.loadGoal at hload
  cases htext : pending.source.goalText with
  | error reason =>
    rw [htext] at hload
    cases hload
  | ok text =>
    rw [htext] at hload
    cases hload
    exact ⟨text, story.content_update _ _ _ _⟩

/-! ## Goals of the header and other goals

Loading a story again brings back the goals of its header. So edits have to leave those alone: then
every goal is as the header made it or is one of the story's own. -/

/-- Every goal is as it was when the header was read, or is not of the header. -/
def IsOnTopOf (story started : Story) : Prop :=
  ∀ name, story.goals.content name = started.goals.content name
    ∨ ∃ text origin, story.goals.content name = some (text, origin) ∧ origin ≠ .header

variable {started : Story}

/-- A goal that is not of the header may come up anywhere. -/
theorem IsOnTopOf.put {after : Story} {text : String} {origin : GoalOrigin}
    (h : story.IsOnTopOf started) (horigin : origin ≠ .header)
    (hafter : after.goals.content
      = Function.update story.goals.content name (some (text, origin))) :
    after.IsOnTopOf started := by
  intro other
  rw [hafter]
  by_cases heq : other = name
  · subst heq
    exact Or.inr ⟨text, origin, Function.update_self .., horigin⟩
  · rw [Function.update_of_ne heq]
    exact h other

theorem IsOnTopOf.loadGoal {pending : PendingGoal} {outcome : Outcome}
    (h : story.IsOnTopOf started) (horigin : pending.origin ≠ .header)
    (hload : story.loadGoal pending = .ok outcome) : outcome.story.IsOnTopOf started := by
  obtain ⟨text, hcontent⟩ := content_loadGoal hload
  exact h.put horigin hcontent

theorem IsOnTopOf.edit {edit : Edit} (h : story.IsOnTopOf started)
    (hedit : edit.name ∉ started.goals.names) : (story.edit edit).IsOnTopOf started := by
  have hstarted : started.goals.content edit.name = none := by
    have hnone : started.goals.get? edit.name = none := by
      by_contra hsome
      exact hedit (GoalList.isSome_get?_iff.1 (Option.isSome_iff_ne_none.2 hsome))
    rw [GoalList.content, hnone]
    rfl
  cases edit with
  | update name uri text =>
    refine h.put ?_ (story.content_update name uri text _)
    -- The goal keeps its origin, and no goal of the name is of the header.
    rcases h name with hsame | ⟨text', origin, hcontent, horigin⟩
    · have hnone : story.goals.get? name = none :=
        Option.map_eq_none_iff.1 (hsame.trans hstarted)
      rw [hnone]
      nofun
    · obtain ⟨goal, hget, hpair⟩ := Option.map_eq_some_iff.1 hcontent
      rw [hget]
      show goal.origin ≠ .header
      rw [(Prod.mk.inj hpair).2]
      exact horigin
  | remove name =>
    show (((story.remove? name).map (·.story)).getD story).IsOnTopOf started
    cases hremove : story.remove? name with
    | none => exact h
    | some outcome =>
      show outcome.story.IsOnTopOf started
      intro other
      rw [content_remove hremove]
      by_cases heq : other = name
      · subst heq
        rw [Function.update_self]
        exact Or.inl hstarted.symm
      · rw [Function.update_of_ne heq]
        exact h other

theorem IsOnTopOf.editAll {edits : List Edit} (h : story.IsOnTopOf started)
    (hedits : ∀ edit ∈ edits, edit.name ∉ started.goals.names) :
    (story.editAll edits).IsOnTopOf started := by
  induction edits generalizing story with
  | nil => exact h
  | cons edit rest ih =>
    exact ih (h.edit (hedits edit List.mem_cons_self))
      fun other hother => hedits other (List.mem_cons_of_mem _ hother)

theorem isOnTopOf_load {inputs : StoryInputs} (hstart : start inputs = .ok started)
    (hload : load inputs = .ok story) : story.IsOnTopOf started := by
  obtain ⟨started', entered, hstart', hentered, rfl⟩ := load_eq_ok.1 hload
  rw [hstart] at hstart'
  cases hstart'
  have horigins : ∀ pending ∈ inputs.pendingGoals, pending.origin ≠ .header := by
    intro pending hmem
    rcases List.mem_append.1 hmem with hmem | hmem
    all_goals
      obtain ⟨source, -, rfl⟩ := List.mem_map.1 hmem
      nofun
  have hentered : entered.IsOnTopOf started := by
    refine loadGoals_induction (P := fun story => story.IsOnTopOf started)
      (fun hmem h hload => h.loadGoal (horigins _ hmem) hload) (fun _ => Or.inl rfl) hentered
  intro name
  rw [content_finish]
  exact hentered name

/-! ## Loading the goals again

The goals of a story are written out as something to load. Loading that gives the same texts under
the same names, but perhaps in another order. -/

/-- What is pending when goals are loaded again. -/
theorem mem_pendingGoals_withGoals {inputs : StoryInputs} {goals : GoalList}
    {pending : PendingGoal} (hpending : pending ∈ (inputs.withGoals goals).pendingGoals) :
    ∃ goal ∈ goals.goals, pending = ⟨.inMemory goal.name goal.text, goal.origin⟩ := by
  rcases List.mem_append.1 hpending with hmem | hmem
  all_goals
    obtain ⟨source, hsource, rfl⟩ := List.mem_map.1 hmem
    obtain ⟨goal, hgoal, rfl⟩ := List.mem_map.1 hsource
    obtain ⟨hgoal, horigin⟩ := List.mem_filter.1 hgoal
    exact ⟨goal, hgoal, by rw [beq_iff_eq.1 horigin]⟩

theorem pending_of_mem {inputs : StoryInputs} {goals : GoalList} {goal : StoryGoal}
    (hgoal : goal ∈ goals.goals) (horigin : goal.origin ≠ .header) :
    (⟨.inMemory goal.name goal.text, goal.origin⟩ : PendingGoal)
      ∈ (inputs.withGoals goals).pendingGoals := by
  have hsource {origin : GoalOrigin} (heq : goal.origin = origin) :
      TextSource.inMemory goal.name goal.text
        ∈ (goals.goals.filter fun goal => goal.origin == origin).map fun goal =>
          .inMemory goal.name goal.text :=
    List.mem_map.2 ⟨goal, List.mem_filter.2 ⟨hgoal, beq_iff_eq.2 heq⟩, rfl⟩
  cases heq : goal.origin with
  | header => exact absurd heq horigin
  | shared => exact List.mem_append_left _ (List.mem_map.2 ⟨_, hsource heq, rfl⟩)
  | «local» => exact List.mem_append_right _ (List.mem_map.2 ⟨_, hsource heq, rfl⟩)

/-- Goals in memory can be loaded. If they are what some content says, and the rest was so before,
then that is the content afterwards. -/
theorem exists_loadGoals {pendings : List PendingGoal}
    {content : String → Option (String × GoalOrigin)}
    (hpendings : ∀ pending ∈ pendings, ∃ name text, pending.source = .inMemory name text
      ∧ content name = some (text, pending.origin))
    (hrest : ∀ name, (∀ pending ∈ pendings, pending.source.name ≠ name) →
      story.goals.content name = content name) :
    ∃ entered, pendings.foldlM (fun story pending => (loadGoal story pending).map (·.story)) story
        = .ok entered
      ∧ entered.goals.content = content := by
  induction pendings generalizing story with
  | nil => exact ⟨story, rfl, funext fun name => hrest name nofun⟩
  | cons pending rest ih =>
    obtain ⟨own, text, hsource, hown⟩ := hpendings pending List.mem_cons_self
    have hload : loadGoal story pending
        = .ok (story.update own (TextSource.inMemory own text).uri text pending.origin) := by
      unfold Story.loadGoal
      rw [hsource]
      rfl
    rw [List.foldlM_cons, hload]
    refine ih (fun other hother => hpendings other (List.mem_cons_of_mem _ hother)) fun name hname => ?_
    rw [content_update]
    by_cases heq : name = own
    · rw [heq, Function.update_self, hown]
    · rw [Function.update_of_ne heq]
      refine hrest name fun other hother => ?_
      rcases List.mem_cons.1 hother with rfl | hother
      · rw [hsource]
        exact Ne.symm heq
      · exact hname other hother

/-- **The goals of an edited story can be loaded again.** -/
theorem exists_reload {inputs : StoryInputs} (hstart : start inputs = .ok started)
    (hnames : story.goals.names.Nodup) (hontop : story.IsOnTopOf started) :
    ∃ reloaded, load (inputs.withGoals story.goals) = .ok reloaded
      ∧ reloaded.goals.content = story.goals.content := by
  have hpendings : ∀ pending ∈ (inputs.withGoals story.goals).pendingGoals, ∃ name text,
      pending.source = .inMemory name text
        ∧ story.goals.content name = some (text, pending.origin) := by
    intro pending hpending
    obtain ⟨goal, hgoal, rfl⟩ := mem_pendingGoals_withGoals hpending
    refine ⟨goal.name, goal.text, rfl, ?_⟩
    rw [GoalList.content, GoalList.get?_of_mem hnames hgoal]
    rfl
  have hrest : ∀ name, (∀ pending ∈ (inputs.withGoals story.goals).pendingGoals,
      pending.source.name ≠ name) → started.goals.content name = story.goals.content name := by
    intro name hname
    rcases hontop name with hsame | ⟨text, origin, hown, horigin⟩
    · exact hsame.symm
    · obtain ⟨goal, hget, hpair⟩ := Option.map_eq_some_iff.1 hown
      rw [← (Prod.mk.inj hpair).2] at horigin
      exact absurd (GoalList.name_of_get? hget)
        (hname _ (pending_of_mem (GoalList.mem_of_get? hget) horigin))
  obtain ⟨entered, hentered, hcontent⟩ := exists_loadGoals hpendings hrest
  refine ⟨entered.finish.story, load_eq_ok.2 ⟨started, entered, hstart, hentered, rfl⟩, ?_⟩
  rw [content_finish]
  exact hcontent

/-! ## Edited and reloaded stories

Both stories hold the same goals on the same header. Where symbols settle, the order in which they
came in does not matter, and so both say the same there. -/

end Story

/-- The verdict of a symbol and the types of its parameters. -/
def StorySymbol.typing (s : StorySymbol) : Resolution × List ValueType :=
  (s.resolution, s.parameters.map (·.type))

namespace Story

variable {header : SymbolTable} {types : TypeRegistry} {a b : Story}

/-- Stories on the same header that have the same goals have the same weights, and their symbols are
alike. -/
theorem IsUpToDate.alike (ha : a.IsUpToDate header types) (hb : b.IsUpToDate header types)
    (hheader : header.IsDeclared) (hcontent : a.goals.content = b.goals.content)
    (hsize : a.goals.size ≤ 2 ^ 32) :
    a.weights = b.weights ∧ a.symbols.Alike a.weights b.symbols := by
  have htrees : a.goals.trees = b.goals.trees := by
    funext name
    rw [ha.read.trees_eq, hb.read.trees_eq, hcontent]
  have hweights : a.weights = b.weights := by
    rw [ha.weights, hb.weights]
    exact GoalList.weights_of_parents ha.names hb.names fun name => by rw [htrees]
  refine ⟨hweights, ?_⟩
  have hb_holds := hb.holds
  rw [← htrees] at hb_holds
  refine ha.holds.alike hb_holds ha.tidy hb.tidy hheader fun m n hm hn hsame => ?_
  have hname {name : String} (hsome : (a.goals.trees name).isSome) : name ∈ a.goals.names := by
    rw [GoalList.trees, Option.isSome_map] at hsome
    exact GoalList.isSome_get?_iff.1 hsome
  rw [ha.weights] at hsame
  exact GoalList.eq_of_weight_eq hsize (hname hm) (hname hn) hsame

/-- Alike symbols of stories that are up to date. -/
theorem IsUpToDate.agree (ha : a.IsUpToDate header types) (hb : b.IsUpToDate header types)
    (hweights : a.weights = b.weights) (halike : a.symbols.Alike a.weights b.symbols)
    {key : SymbolKey} {s t : StorySymbol} (hs : a.symbols.get? key = some s)
    (ht : b.symbols.get? key = some t) (hsettles : a.symbols.Settles a.weights key) :
    s.typing = t.typing ∧ (s.AgreesOnFlow → s.flows = t.flows) := by
  have hst := halike.symbol hs ht
  -- Both tables show what the symbol is judged to be where it settles, and the judgement depends on
  -- nothing in which the two differ.
  obtain ⟨S, hcovers⟩ := hsettles
  have hs_shows : s.Shows (S.view key) := ha.shown S hcovers hs
  have ht_shows : t.Shows (S.view key) := by
    have hb_shown := hb.shown
    rw [← hweights] at hb_shown
    exact hb_shown (halike.settling S) hcovers ht
  -- A declared symbol has one verdict in both tables; one that is inferred has what the judgement
  -- gives.
  cases hsystem : s.isSystem with
  | true =>
    have hverdict := hst.declared hsystem
    refine ⟨?_, fun _ => ?_⟩
    · show s.verdict.typing = t.verdict.typing
      rw [hverdict]
    · show s.verdict.flows = t.verdict.flows
      rw [hverdict]
  | false =>
    have hview (types : List ValueType) : S.view key ≠ .declared types := by
      rw [S.judged hcovers hs hsystem]
      exact View.judge_ne_declared types
    refine ⟨?_, hst.flows_eq hsystem hview hs_shows ht_shows⟩
    have houtcome := hst.outcome_eq hsystem hview hs_shows ht_shows
    obtain ⟨hresolution, hrest⟩ := Prod.mk.inj houtcome
    exact Prod.ext hresolution (Prod.mk.inj hrest).1

/-- **An edited story agrees with the one that is loaded again.** Load a story, edit it but leave the
goals of the header alone, and load the goals as they are then: every symbol is of the same kind,
one that settles has the same verdict and types, and the same directions too if no two of its
definitions state different ones. -/
theorem edited_eq_reloaded {inputs : StoryInputs} {started loaded : Story} (edits : List Edit)
    (hstart : start inputs = .ok started) (hload : load inputs = .ok loaded)
    (hedits : ∀ edit ∈ edits, edit.name ∉ started.goals.names)
    (hsize : (loaded.editAll edits).goals.size ≤ 2 ^ 32) :
    ∃ reloaded, load (inputs.withGoals (loaded.editAll edits).goals) = .ok reloaded
      ∧ reloaded.goals.content = (loaded.editAll edits).goals.content
      ∧ ∀ key,
        let edited? := (loaded.editAll edits).symbols.get? key
        let reloaded? := reloaded.symbols.get? key
        edited?.map (·.kind) = reloaded?.map (·.kind)
        ∧ ((loaded.editAll edits).symbols.Settles (loaded.editAll edits).weights key →
          edited?.map StorySymbol.typing = reloaded?.map StorySymbol.typing
          ∧ ((∀ s, edited? = some s → s.AgreesOnFlow) →
            edited?.map StorySymbol.flows = reloaded?.map StorySymbol.flows)) := by
  obtain ⟨header, types, hheader, hstarted⟩ := isLoading_start hstart
  have hedited : (loaded.editAll edits).IsUpToDate header types :=
    (isUpToDate_load hheader hstart hstarted hload).editAll hheader edits
  have hontop : (loaded.editAll edits).IsOnTopOf started :=
    (isOnTopOf_load hstart hload).editAll hedits
  obtain ⟨reloaded, hreload, hcontent⟩ := exists_reload hstart hedited.names hontop
  -- What is loaded again starts from the same header.
  have hrestart : start (inputs.withGoals (loaded.editAll edits).goals) = .ok started := hstart
  have hreloaded : reloaded.IsUpToDate header types :=
    isUpToDate_load hheader hrestart hstarted hreload
  obtain ⟨hweights, halike⟩ := hedited.alike hreloaded hheader hcontent.symm hsize
  refine ⟨reloaded, hreload, hcontent, fun key => ?_⟩
  dsimp only
  cases hs : (loaded.editAll edits).symbols.get? key with
  | none =>
    rw [halike.symm.get?_eq_none hs]
    exact ⟨rfl, fun _ => ⟨rfl, fun _ => rfl⟩⟩
  | some s =>
    obtain ⟨t, ht, hst⟩ := halike.symm.exists_alike hs
    rw [ht]
    refine ⟨congrArg some hst.kind.symm, fun hsettles => ?_⟩
    obtain ⟨htyping, hflows⟩ := hedited.agree hreloaded hweights halike hs ht hsettles
    exact ⟨congrArg some htyping, fun hagree => congrArg some (hflows (hagree s rfl))⟩

/-! ### A circle that is read again

Two goals on one line each: a database is derived from another and filled besides. -/

/-- A range within the first line. -/
def Sketch.within (first last : Nat) : Range := ⟨⟨first, last⟩, first, last⟩

/-- A database with one parameter, whose argument takes `width` characters. -/
def Sketch.fact (start : Nat) (name : String) (term : Term) (width : Nat) : Signature :=
  let opening := start + name.length
  let argument := within (opening + 1) (opening + 1 + width)
  { identifier := ⟨name, within start opening⟩
    parameters := [⟨none, none, ⟨term, argument⟩, argument⟩]
    range := within start (opening + width + 2) }

/-- A goal that derives `target` from `source` and fills it with a constant on leaving, for names of
four characters. -/
def Sketch.derivation (source target : String) (own : Term) (width : Nat) : Goal :=
  let insert (start : Nat) (call : Signature) : ActionBlock :=
    let range := within start (call.range.span.stop + 1)
    ⟨[⟨.call call false, range⟩], range⟩
  { options := []
    init := ⟨[], within 12 12⟩
    rules :=
      [{ kind := .ifRule
         head := fact 25 source (.name "_v") 2
         conditions := ⟨[], within 34 34⟩
         actions := insert 39 (fact 39 target (.name "_v") 2)
         region := none, comment := none, range := within 22 48 }]
    exit := insert 61 (fact 61 target own width)
    range := within 0 (83 + width) }

/-- Derives `DB_X` from `DB_Y` and fills it with a number. -/
def numbered : StoryGoal :=
  { name := "A", uri := "memory:///A", origin := .local, readingReports := []
    text := "INITSECTION KBSECTION IF DB_Y(_v) THEN DB_X(_v); EXITSECTION DB_X(1); ENDEXITSECTION"
    tree := Sketch.derivation "DB_Y" "DB_X" (.integer 1) 1 }

/-- Derives `DB_Y` from `DB_X` and fills it with a text. -/
def lettered : StoryGoal :=
  { name := "B", uri := "memory:///B", origin := .local, readingReports := []
    text :=
      "INITSECTION KBSECTION IF DB_X(_v) THEN DB_Y(_v); EXITSECTION DB_Y(\"s\"); ENDEXITSECTION"
    tree := Sketch.derivation "DB_X" "DB_Y" (.string "s") 3 }

/-- A goal as it comes from a text that is kept in memory. -/
def IsAsRead (goal : StoryGoal) : Prop :=
  .ofText goal.name (TextSource.inMemory goal.name goal.text).uri goal.text .local = goal

theorem parseGoal_circle : ∀ goal ∈ [numbered, lettered], parseGoal goal.text = ⟨goal.tree, []⟩ := by
  decide +kernel

theorem isAsRead_numbered : IsAsRead numbered := by
  rw [IsAsRead, StoryGoal.ofText, parseGoal_circle numbered (by simp)]
  rfl

theorem isAsRead_lettered : IsAsRead lettered := by
  rw [IsAsRead, StoryGoal.ofText, parseGoal_circle lettered (by simp)]
  rfl

/-- A header that says nothing, with goals in memory. -/
def inputsOf (goals : List StoryGoal) : StoryInputs :=
  { header := .inMemory "story_header" ""
    goals := goals.map fun goal => .inMemory goal.name goal.text }

/-- The story that has only read that header. -/
def bare : Story := { phase := .initializing, headerUri := "memory:///story_header" }

theorem start_inputsOf (goals : List StoryGoal) : start (inputsOf goals) = .ok bare := by
  have hheader : ofHeader "memory:///story_header" "" {} = bare := by cbv
  rw [← hheader]
  rfl

theorem load_inputsOf {goals : List StoryGoal} (hgoals : ∀ goal ∈ goals, IsAsRead goal) :
    load (inputsOf goals) = .ok (goals.foldl enter bare).finish.story := by
  refine load_eq_ok.2 ⟨bare, _, start_inputsOf goals, ?_, rfl⟩
  have hpending : (inputsOf goals).pendingGoals
      = goals.map fun goal => ⟨.inMemory goal.name goal.text, .local⟩ := by
    simp [StoryInputs.pendingGoals, inputsOf]
  rw [hpending]
  clear hpending
  have hphase : bare.phase = .initializing := rfl
  generalize bare = story at hphase
  induction goals generalizing story with
  | nil => rfl
  | cons goal rest ih =>
    have hload : loadGoal story ⟨.inMemory goal.name goal.text, .local⟩
        = .ok { story := story.enter goal } := by
      have hready : ¬ story.isReady = true := by simp [isReady, hphase]
      show Except.ok (story.update goal.name _ goal.text .local) = _
      rw [Story.update, if_neg hready]
      exact congrArg (fun goal => (Except.ok { story := story.enter goal } : Except StoryError Outcome))
        (hgoals goal List.mem_cons_self)
    rw [List.map_cons, List.foldlM_cons, hload]
    exact ih (fun other hother => hgoals other (List.mem_cons_of_mem _ hother)) _ hphase

/-- Reading the text of a goal again, or anew. -/
theorem edit_update (story : Story) (goal : StoryGoal) {treeHasChanged : Bool}
    (hgoal : IsAsRead goal) (hready : story.isReady = true)
    (horigin : ((story.goals.get? goal.name).map (·.origin)).getD .local = .local)
    (htree : ((story.goals.get? goal.name).map (·.parents) != some goal.parents)
      = treeHasChanged) :
    story.edit (.update goal.name (TextSource.inMemory goal.name goal.text).uri goal.text)
      = (((story.enter goal).refresh treeHasChanged).andThen
          (checkAndAnnounce goal.name)).story := by
  show (story.update _ _ _ (((story.goals.get? goal.name).map (·.origin)).getD .local)).story = _
  rw [horigin, Story.update, if_pos hready]
  rw [hgoal, htree]

/-- A goal that gets the text that it has already. -/
theorem rereading_keeps_types :
    let loaded := ([numbered].foldl enter bare).finish.story
    let edited := loaded.editAll
      [.update "A" (TextSource.inMemory "A" numbered.text).uri numbered.text]
    ∃ reloaded, load ((inputsOf [numbered]).withGoals edited.goals) = .ok reloaded
      ∧ (edited.symbols.get? ⟨"DB_X", 1⟩).map StorySymbol.typing
        = (reloaded.symbols.get? ⟨"DB_X", 1⟩).map StorySymbol.typing := by
  intro loaded edited
  have hedited : edited = (((loaded.enter numbered).refresh false).andThen
      (checkAndAnnounce "A")).story := by
    refine edit_update loaded numbered isAsRead_numbered ?_ ?_ ?_
    all_goals cbv
  have hsize : edited.goals.size ≤ 2 ^ 32 := by
    rw [hedited]
    exact le_of_eq_of_le (b := 1) (by cbv) (by decide)
  obtain ⟨reloaded, hreload, -, hagree⟩ := edited_eq_reloaded
    [.update "A" (TextSource.inMemory "A" numbered.text).uri numbered.text]
    (start_inputsOf [numbered]) (load_inputsOf (by simp [isAsRead_numbered])) (by decide) hsize
  refine ⟨reloaded, hreload, ((hagree ⟨"DB_X", 1⟩).2 ?_).1⟩
  -- What the database is derived from is never filled, so the constant decides.
  let rank (key : SymbolKey) : Nat := if key.name = "DB_X" then 1 else 0
  have hrank : edited.symbols.IsRankedBy edited.weights rank := by
    rw [hedited]
    exact SymbolTable.isRankedBy_of_all (by cbv)
  exact SymbolTable.settles_of_rank hrank ⟨"DB_X", 1⟩

/-- The circle, and how it is edited: a goal goes and comes back. -/
def circle : Story := ([numbered, lettered].foldl enter bare).finish.story

/-- The edits. -/
def comingBack : List Edit :=
  [.remove "A", .update "A" (TextSource.inMemory "A" numbered.text).uri numbered.text]

set_option maxRecDepth 10000 in
theorem editAll_comingBack : circle.editAll comingBack
    = ((((circle.edit (.remove "A")).enter numbered).refresh true).andThen
        (checkAndAnnounce "A")).story := by
  refine edit_update (circle.edit (.remove "A")) numbered isAsRead_numbered ?_ ?_ ?_
  all_goals cbv

/-- **A circle may be resolved otherwise when it is read again.** The goal that was taken out and put
back comes last in the list of goals, but its symbols kept their places in the table. -/
theorem reloading_can_change_types :
    ¬ ∀ (inputs : StoryInputs) (started loaded reloaded : Story) (edits : List Edit),
      start inputs = .ok started → load inputs = .ok loaded →
      (∀ edit ∈ edits, edit.name ∉ started.goals.names) →
      load (inputs.withGoals (loaded.editAll edits).goals) = .ok reloaded →
      ∀ key, ((loaded.editAll edits).symbols.get? key).map StorySymbol.typing
        = (reloaded.symbols.get? key).map StorySymbol.typing := by
  intro h
  have hgoals : (inputsOf [numbered, lettered]).withGoals (circle.editAll comingBack).goals
      = inputsOf [lettered, numbered] := by
    rw [editAll_comingBack]
    cbv
  have hreload : load ((inputsOf [numbered, lettered]).withGoals (circle.editAll comingBack).goals)
      = .ok ([lettered, numbered].foldl enter bare).finish.story := by
    rw [hgoals]
    exact load_inputsOf (by simp [isAsRead_numbered, isAsRead_lettered])
  have heq := h (inputsOf [numbered, lettered]) bare circle _ comingBack (start_inputsOf _)
    (load_inputsOf (by simp [isAsRead_numbered, isAsRead_lettered])) (by decide) hreload
    ⟨"DB_X", 1⟩
  have hedited : ((circle.editAll comingBack).symbols.get? ⟨"DB_X", 1⟩).map StorySymbol.typing
      = some (.resolved, [.integer]) := by
    rw [editAll_comingBack]
    cbv
  have hreloaded : ((([lettered, numbered].foldl enter bare).finish.story).symbols.get?
      ⟨"DB_X", 1⟩).map StorySymbol.typing = some (.resolved, [.string]) := by cbv
  rw [hedited, hreloaded] at heq
  cases heq

end Story

end StoryCheck
