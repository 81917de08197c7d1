import StoryCheck.Proofs.Symbol.Acyclic
import StoryCheck.Proofs.Symbol.Upkeep
import StoryCheck.Proofs.Syntax.Sketch

/-!
# The order of goals

Goals may be entered into a table in any order. Which symbols there are and what they may adopt does
not hang on it, and for a symbol that settles neither does what an update makes of it. On a circle
of symbols that have types it does: what such a symbol comes to depends on where the circle is
entered, and that is decided by the order of the table.

* **`addGoals`** — goals are entered one after the other.
* **`Holds.addGoals`** — a table holds the goals that were entered.
* **`Holds.outcome_update_eq`** — fresh tables that hold the same goals come to the same where
  symbols settle.
* **`outcome_update_perm`** — symbols that settle come to the same in every order.
* **`goal_order_matters`** — on a circle they need not.
-/

namespace StoryCheck

open Syntax

namespace SymbolTable

variable {table header : SymbolTable} {types : TypeRegistry} {trees : Trees}
  {goals goals' : List (String × Goal)} {key : SymbolKey} {s : StorySymbol} {weights : Weights}

/-- Enters goals one after the other. -/
def addGoals (table : SymbolTable) (types : TypeRegistry) (goals : List (String × Goal)) :
    SymbolTable :=
  goals.foldl (fun table (name, tree) => (table.addGoal name types tree).1) table

/-- The goals of a list by name. -/
def treesOf (goals : List (String × Goal)) : Trees :=
  fun name => (goals.find? fun (other, _) => other == name).map (·.2)

theorem treesOf_eq_some {name : String} {tree : Goal} (hnames : (goals.map (·.1)).Nodup) :
    treesOf goals name = some tree ↔ (name, tree) ∈ goals := by
  unfold treesOf
  rw [Option.map_eq_some_iff]
  constructor
  · rintro ⟨⟨other, tree⟩, hfound, rfl⟩
    have hname : other = name := by simpa using List.find?_some hfound
    exact hname ▸ List.mem_of_find?_eq_some hfound
  · intro hmem
    have hsome : (goals.find? fun (other, _) => other == name).isSome :=
      List.find?_isSome.2 ⟨(name, tree), hmem, beq_self_eq_true _⟩
    obtain ⟨found, hfound⟩ := Option.isSome_iff_exists.1 hsome
    have hname : found.1 = name := by simpa using List.find?_some hfound
    have heq := List.inj_on_of_nodup_map hnames (List.mem_of_find?_eq_some hfound) hmem hname
    exact ⟨found, hfound, by rw [heq]⟩

/-- By name, the order of goals does not show. -/
theorem treesOf_perm (hnames : (goals.map (·.1)).Nodup) (hperm : goals.Perm goals') :
    treesOf goals = treesOf goals' := by
  funext name
  refine Option.ext fun tree => ?_
  rw [treesOf_eq_some hnames, treesOf_eq_some ((hperm.map _).nodup_iff.1 hnames), hperm.mem_iff]

theorem treesOf_cons {name other : String} {tree : Goal} :
    treesOf ((name, tree) :: goals) other = if other = name then some tree else treesOf goals other := by
  unfold treesOf
  by_cases heq : other = name
  · simp [heq]
  · simp [heq, Ne.symm heq]

theorem treesOf_isSome {name : String} (hsome : (treesOf goals name).isSome) :
    name ∈ goals.map (·.1) := by
  obtain ⟨tree, htree⟩ := Option.isSome_iff_exists.1 hsome
  obtain ⟨⟨other, tree⟩, hfound, rfl⟩ := Option.map_eq_some_iff.1 htree
  have hname : other = name := by simpa using List.find?_some hfound
  exact List.mem_map.2 ⟨_, List.mem_of_find?_eq_some hfound, hname⟩

/-! ## A table of goals

Entering goals one by one, under different names, gives a table that holds them all. -/

theorem IsFresh.addGoal {goal : String} {tree : Goal} (h : table.IsFresh) :
    (table.addGoal goal types tree).1.IsFresh := by
  intro key s hget hsystem
  rw [get?_addGoal] at hget
  obtain ⟨v, hv, rfl⟩ := Option.map_eq_some_iff.1 hget
  have hv_system := (StorySymbol.isSystem_revised v).symm.trans hsystem
  obtain rfl := eq_gather_of_filled hv
  have hextends := extends_gather goal (sitesOf (CallSite.ofGoal types tree) key)
    ((table.get? key).getD (.ofKey key))
  have hbase : ((table.get? key).getD (.ofKey key)).isDead = false
      ∧ ((table.get? key).getD (.ofKey key)).needsUpdate = true
      ∧ ((table.get? key).getD (.ofKey key)).canonical = none := by
    cases hget : table.get? key with
    | none => exact ⟨rfl, rfl, rfl⟩
    | some s =>
      rw [hget] at hextends
      exact h hget (hextends.isSystem.symm.trans (by rwa [hget] at hv_system))
  rw [← hextends.isDead, ← hextends.needsUpdate, ← hextends.canonical] at hbase
  rw [StorySymbol.revised_eq hv_system]
  dsimp only
  rw [hbase.1, hbase.2.1, hbase.2.2]
  simp

theorem IsFresh.addGoals (h : table.IsFresh) : (table.addGoals types goals).IsFresh := by
  induction goals generalizing table with
  | nil => exact h
  | cons goal rest ih => exact ih h.addGoal

theorem IsTidy.addGoals (h : table.IsTidy) : (table.addGoals types goals).IsTidy := by
  induction goals generalizing table with
  | nil => exact h
  | cons goal rest ih => exact ih h.addGoal

/-- **A table holds the goals that were entered**, each by its name. -/
theorem Holds.addGoals (h : table.Holds header types trees) (hheader : header.IsDeclared)
    (hnames : (goals.map (·.1)).Nodup) (hnew : ∀ name ∈ goals.map (·.1), trees name = none) :
    (table.addGoals types goals).Holds header types
      fun name => (treesOf goals name).or (trees name) := by
  -- Goal by goal: the first is new, and the others stay new beside it.
  induction goals generalizing table trees with
  | nil => exact h
  | cons goal rest ih =>
    obtain ⟨name, tree⟩ := goal
    obtain ⟨hfirst, hrest⟩ := List.nodup_cons.1 hnames
    have hadded : (table.addGoal name types tree).1.Holds header types
        (Function.update trees name (some tree)) :=
      h.addGoal hheader (hnew name List.mem_cons_self)
    have hnew' : ∀ other ∈ rest.map (·.1), Function.update trees name (some tree) other = none := by
      intro other hother
      have hne : other ≠ name := fun heq => hfirst (heq ▸ hother)
      rw [Function.update_of_ne hne]
      exact hnew other (List.mem_cons_of_mem _ hother)
    have hentered := ih hadded hrest hnew'
    have htrees : (fun other => (treesOf rest other).or (Function.update trees name (some tree) other))
        = fun other => (treesOf ((name, tree) :: rest) other).or (trees other) := by
      funext other
      rw [treesOf_cons]
      by_cases heq : other = name
      · subst heq
        have hnone : treesOf rest other = none := by
          by_contra hsome
          exact hfirst (treesOf_isSome (Option.isSome_iff_ne_none.2 hsome))
        rw [hnone, Function.update_self, if_pos rfl]
        rfl
      · rw [Function.update_of_ne heq, if_neg heq]
    rw [htrees] at hentered
    exact hentered

/-! ## Declared symbols

The verdict of a declared symbol comes with its declaration, and no goal changes it. -/

theorem outcome_congr {t : StorySymbol} (hverdict : t.verdict = s.verdict)
    (hdefinitions : t.definitions = s.definitions) : t.outcome = s.outcome := by
  unfold StorySymbol.outcome StorySymbol.canonicalDefinition?
  rw [StorySymbol.resolution_eq_of_verdict hverdict, StorySymbol.parameters_eq_of_verdict hverdict,
    StorySymbol.canonical_eq_of_verdict hverdict, hdefinitions]

/-- Goals leave a declared symbol alone. -/
theorem get?_addGoals_of_isSystem (types : TypeRegistry) (goals : List (String × Goal))
    (hget : table.get? key = some s) (hsystem : s.isSystem = true) :
    ∃ t, (table.addGoals types goals).get? key = some t ∧ t.verdict = s.verdict
      ∧ t.definitions = s.definitions := by
  induction goals generalizing table s with
  | nil => exact ⟨s, hget, rfl, rfl⟩
  | cons goal rest ih =>
    obtain ⟨name, tree⟩ := goal
    let own := sitesOf (CallSite.ofGoal types tree) key
    have hextends := extends_gather name own s
    have hfilled : (table.filled name (CallSite.ofGoal types tree)).get? key
        = some (gather name own s) := by
      rw [get?_filled, hget]
      split
      · next hnil =>
        have hown : own = [] := hnil
        rw [hown]
        rfl
      · rfl
    have hadded : (table.addGoal name types tree).1.get? key = some (gather name own s) := by
      rw [get?_addGoal, hfilled]
      exact congrArg some (StorySymbol.revised_of_isSystem (hextends.isSystem.trans hsystem))
    obtain ⟨t, ht, hverdict, hdefinitions⟩ := ih hadded (hextends.isSystem.trans hsystem)
    exact ⟨t, ht, hverdict.trans hextends.verdict,
      hdefinitions.trans (definitions_gather_of_isSystem hsystem)⟩

/-- What becomes of a declared symbol is what its header says, whatever goals there are. -/
theorem outcome_update_of_declared (hheader : header.IsDeclared) (types : TypeRegistry)
    (goals : List (String × Goal)) (weights : Weights) (hget : header.get? key = some s) :
    (((header.addGoals types goals).update weights).1.get? key).map StorySymbol.outcome
      = some s.outcome := by
  obtain ⟨hsystem, -, hsettled⟩ := hheader hget
  obtain ⟨t, ht, hverdict, hdefinitions⟩ := get?_addGoals_of_isSystem types goals hget hsystem
  have ht_settled := (StorySymbol.needsUpdate_eq_of_verdict hverdict).trans hsettled
  rw [get?_update_of_unflagged ht ht_settled]
  exact congrArg some (outcome_congr hverdict hdefinitions)

/-! ## Updates

Where symbols settle, what they come to is the judgement of a settling, and that speaks of neither
the order of the table nor that of goals. -/

/-- **Fresh tables that hold the same goals come to the same where inferred symbols settle**, if no
two goals share a weight. -/
theorem Holds.outcome_update_eq {a b : SymbolTable} (ha : a.Holds header types trees)
    (hb : b.Holds header types trees) (ha_tidy : a.IsTidy) (hb_tidy : b.IsTidy)
    (ha_fresh : a.IsFresh) (hb_fresh : b.IsFresh) (hheader : header.IsDeclared)
    (hweights : ∀ m n, (trees m).isSome → (trees n).isSome → weights.of m = weights.of n → m = n)
    (hget : header.get? key = none) (hsettles : a.Settles weights key) :
    ((a.update weights).1.get? key).map StorySymbol.outcome
      = ((b.update weights).1.get? key).map StorySymbol.outcome := by
  -- The tables are alike before and after the update: their settlings are the same, and the symbols
  -- that show a judgement in the end are alike.
  have hbefore : a.Alike weights b := ha.alike hb ha_tidy hb_tidy hheader hweights
  have hafter : (a.update weights).1.Alike weights (b.update weights).1 :=
    (ha.update hheader weights).alike (hb.update hheader weights) (IsTidy.update ha_tidy weights)
      (IsTidy.update hb_tidy weights) hheader hweights
  cases hs : (a.update weights).1.get? key with
  | none => rw [hafter.symm.get?_eq_none hs]
  | some s =>
    obtain ⟨t, ht, -⟩ := hafter.symm.exists_alike hs
    have hinferred := ((ha.update hheader weights).gathers hget hs).inferred
    obtain ⟨S, hcovers⟩ := hsettles
    have hview (types : List ValueType) : S.view key ≠ .declared types := by
      have hsome : (a.get? key).isSome := by
        rw [← isSome_update a weights, hs]
        rfl
      obtain ⟨s₀, hs₀⟩ := Option.isSome_iff_exists.1 hsome
      rw [S.judged hcovers hs₀ (ha.gathers hget hs₀).inferred]
      exact View.judge_ne_declared types
    rw [ht]
    refine congrArg some ((hafter.symbol hs ht).outcome_eq hinferred hview ?_ ?_)
    · exact ha.shows_update hheader ha_fresh S hcovers hs
    · exact hb.shows_update hheader hb_fresh (hbefore.settling S) hcovers ht

/-- **What settles does not hang on the order of the goals.** Enter goals of different names and
weights into the table of a header in any two orders and update once: a symbol that settles has
the same verdict, the same types and the same adopted definition. -/
theorem outcome_update_perm (name : String) (types : TypeRegistry) (declarations : List Declaration)
    (hperm : goals.Perm goals') (hnames : (goals.map (·.1)).Nodup)
    (hweights : ∀ m ∈ goals.map (·.1), ∀ n ∈ goals.map (·.1),
      weights.of m = weights.of n → m = n)
    (hsettles : ((declareAll {} name types declarations).addGoals types goals).Settles weights key) :
    ((((declareAll {} name types declarations).addGoals types goals).update weights).1.get? key).map
        StorySymbol.outcome
      = ((((declareAll {} name types declarations).addGoals types goals').update weights).1.get?
          key).map StorySymbol.outcome := by
  let declared := declareAll {} name types declarations
  have hdeclared : declared.IsDeclared := isDeclared_declareAll name types declarations
  cases hget : declared.get? key with
  | some s =>
    exact (outcome_update_of_declared hdeclared types goals weights hget).trans
      (outcome_update_of_declared hdeclared types goals' weights hget).symm
  | none =>
    have hstart : declared.Holds declared types fun _ => none :=
      holds_header (declareAll_spec name types declarations).1
    have ha : (declared.addGoals types goals).Holds declared types (treesOf goals) := by
      simpa using hstart.addGoals hdeclared hnames fun _ _ => rfl
    -- By name, the goals are the same in both orders.
    have hb : (declared.addGoals types goals').Holds declared types (treesOf goals) := by
      rw [treesOf_perm hnames hperm]
      simpa using hstart.addGoals hdeclared ((hperm.map _).nodup_iff.1 hnames) fun _ _ => rfl
    have htidy : declared.IsTidy := hdeclared.isTidy
    have hfresh : declared.IsFresh := hdeclared.isFresh
    exact ha.outcome_update_eq hb htidy.addGoals htidy.addGoals hfresh.addGoals hfresh.addGoals
      hdeclared (fun m n hm hn => hweights m (treesOf_isSome hm) n (treesOf_isSome hn)) hget hsettles

/-- Two databases that feed each other, one of which a section fills. -/
def fedCircle : List (String × Goal) :=
  [("A", Sketch.goal [Sketch.call 1 "DB_X" [.integer 7]]
      [Sketch.rule (Sketch.call 2 "DB_Y" [.name "_v"]) [] [Sketch.call 3 "DB_X" [.name "_v"]]] []),
    ("B", Sketch.goal []
      [Sketch.rule (Sketch.call 1 "DB_X" [.name "_v"]) [] [Sketch.call 2 "DB_Y" [.name "_v"]]] [])]

/-- The constant comes first, so the circle does no harm. -/
theorem fed_circle_settles :
    ((((declareAll {} "header" {} []).addGoals {} fedCircle).update [("A", 0), ("B", 1)]).1.get?
        ⟨"DB_Y", 1⟩).map StorySymbol.outcome
      = ((((declareAll {} "header" {} []).addGoals {} fedCircle.reverse).update
        [("A", 0), ("B", 1)]).1.get? ⟨"DB_Y", 1⟩).map StorySymbol.outcome := by
  let rank (key : SymbolKey) : Nat := if key.name = "DB_X" then 0 else 1
  have hrank : ((declareAll {} "header" {} []).addGoals {} fedCircle).IsRankedBy
      [("A", 0), ("B", 1)] rank := isRankedBy_of_all (by cbv)
  exact outcome_update_perm "header" {} [] (List.reverse_perm fedCircle).symm (by decide) (by decide)
    (settles_of_rank hrank ⟨"DB_Y", 1⟩)

/-- Two databases that feed each other, each filled by a section behind the rule. -/
def filledCircle : List (String × Goal) :=
  [("A", Sketch.goal []
      [Sketch.rule (Sketch.call 1 "DB_Y" [.name "_v"]) [] [Sketch.call 2 "DB_X" [.name "_v"]]]
      [Sketch.call 3 "DB_X" [.integer 1]]),
    ("B", Sketch.goal []
      [Sketch.rule (Sketch.call 1 "DB_X" [.name "_v"]) [] [Sketch.call 2 "DB_Y" [.name "_v"]]]
      [Sketch.call 3 "DB_Y" [.string "s"]])]

/-- **On a circle the order matters.** The database that comes up first in the table is the root of
the attempt: it takes its type over the circle, and the other one takes that of its section. -/
theorem goal_order_matters :
    ¬ ∀ (goals goals' : List (String × Goal)) (weights : Weights) (key : SymbolKey),
      goals.Perm goals' → (goals.map (·.1)).Nodup →
      (∀ m ∈ goals.map (·.1), ∀ n ∈ goals.map (·.1), weights.of m = weights.of n → m = n) →
      ((((declareAll {} "header" {} []).addGoals {} goals).update weights).1.get? key).map
          StorySymbol.outcome
        = ((((declareAll {} "header" {} []).addGoals {} goals').update weights).1.get? key).map
          StorySymbol.outcome := by
  intro h
  have heq := h filledCircle filledCircle.reverse [("A", 0), ("B", 1)] ⟨"DB_X", 1⟩
    (List.reverse_perm filledCircle).symm (by decide) (by decide)
  have hforward : ((((declareAll {} "header" {} []).addGoals {} filledCircle).update
      [("A", 0), ("B", 1)]).1.get? ⟨"DB_X", 1⟩).map StorySymbol.outcome
      = some (.resolved, [.integer], some ("A", ⟨3, 3⟩)) := by cbv
  have hbackward : ((((declareAll {} "header" {} []).addGoals {} filledCircle.reverse).update
      [("A", 0), ("B", 1)]).1.get? ⟨"DB_X", 1⟩).map StorySymbol.outcome
      = some (.resolved, [.string], some ("A", ⟨2, 2⟩)) := by cbv
  rw [hforward, hbackward] at heq
  cases heq

end SymbolTable

end StoryCheck
