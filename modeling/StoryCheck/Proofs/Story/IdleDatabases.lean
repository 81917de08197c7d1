import StoryCheck.Proofs.Check.Codes
import StoryCheck.Proofs.Story.Known
import StoryCheck.Proofs.Syntax.CallPlaces

/-!
# Idle databases

A database that no goal reads is reported where it is written, and one that no goal writes where it
is read. The check goes by the lists that the symbol keeps, which follow the goals of the story one
by one, and tells readings from writings in its own way.

## The architecture

* **`Call.IsRead`**, **`Call.IsWrite`** — call sites that read or write; both the lists and the check
  go by this (`takes_reads_iff`, `takes_writes_iff`, `isQuestion_iff`, `isInsertion_iff`).
* **`RecordsCalls.entries_eq_nil_iff`** — a list is empty if no goal has such a call site.
* **`Idleness`** — the two warnings, of which one is the mirror image of the other.
* **`exists_mem_usageReports_iff`** — the warnings as the check gives them.
* **`reportsAt_checked_iff`** — no other check gives them, and reading a text does not either.
* **`idle_databases_are_reported`** — they tell the truth about all goals of a story.
-/

namespace StoryCheck

open Syntax

/-! ## Reading and writing

What a call does to a database goes by its role and by whether it is negated. No call does both. -/

namespace Syntax.Call

/-- Whether a call site reads the database that it calls: as a condition, with or without NOT, or
as the head of an IF rule. -/
def IsRead (call : Call) : Prop := call.role = .condition ∨ call.role = .head .ifRule

/-- Whether a call site writes the database that it calls: as an action without NOT. -/
def IsWrite (call : Call) : Prop := call.role.isAction = true ∧ call.negated = false

theorem isQuestion_iff {call : Call} : Check.isQuestion call = true ↔ call.IsRead := by
  unfold Check.isQuestion IsRead
  cases call.role with
  | head kind => cases kind <;> simp
  | condition | action | initAction | exitAction => simp

theorem isInsertion_iff {call : Call} : Check.isInsertion call = true ↔ call.IsWrite := by
  simp [Check.isInsertion, IsWrite]

theorem IsRead.not_isWrite {call : Call} (h : call.IsRead) : ¬ call.IsWrite := by
  rintro ⟨haction, -⟩
  rcases h with hrole | hrole <;> simp [hrole, Role.isAction] at haction

end Syntax.Call

namespace Ledger

variable {call : Call}

theorem takes_reads_iff : reads.takes call = true
    ↔ NameClass.of call.name = .database ∧ call.IsRead := by
  unfold takes definitionShape? Call.IsRead
  by_cases hname : NameClass.of call.name = .database
  · cases call.role with
    | head kind => cases kind <;> simp [hname]
    | condition => simp [hname]
    | action | initAction | exitAction => cases call.negated <;> simp [hname]
  · cases call.role with
    | head kind => cases kind <;> simp [hname]
    | condition | action | initAction | exitAction => simp [hname]

theorem takes_writes_iff : writes.takes call = true
    ↔ NameClass.of call.name = .database ∧ call.IsWrite := by
  unfold takes definitionShape? Call.IsWrite
  by_cases hname : NameClass.of call.name = .database
  · cases call.role with
    | head kind => cases kind <;> simp [hname, Role.isAction]
    | condition => simp [hname, Role.isAction]
    | action | initAction | exitAction => cases call.negated <;> simp [hname, Role.isAction]
  · cases call.role with
    | head kind => cases kind <;> simp [hname]
    | condition | action | initAction | exitAction => simp [hname]

end Ledger

/-- What may be wrong with a database of which there are call sites. -/
inductive Idleness where
  /-- No goal reads it. -/
  | unread
  /-- No goal writes it. -/
  | unwritten
deriving DecidableEq, Repr

namespace Idleness

/-- The kind of the report. -/
def code : Idleness → Code
  | unread => .databaseNeverRead
  | unwritten => .databaseNeverWritten

/-- Whether it is reported at a call site. -/
def Concerns : Idleness → Call → Prop
  | unread => Call.IsWrite
  | unwritten => Call.IsRead

/-- Whether a call site keeps a database from it. -/
def IsAverted : Idleness → Call → Prop
  | unread => Call.IsRead
  | unwritten => Call.IsWrite

/-- The list to which such call sites are added. -/
def ledger : Idleness → Ledger
  | unread => .reads
  | unwritten => .writes

theorem takes_ledger_iff (idle : Idleness) {call : Call} : idle.ledger.takes call = true
    ↔ NameClass.of call.name = .database ∧ idle.IsAverted call := by
  cases idle with
  | unread => exact Ledger.takes_reads_iff
  | unwritten => exact Ledger.takes_writes_iff

end Idleness

/-! ## What the check reports

The check looks at one call and at the lists of the symbol. It is silent about databases that the
project lists and about symbols whose kind is not known. -/

namespace Check

variable {context : CheckContext} {call : Call} {symbol : StorySymbol} {d : Diagnostic}
  {span : Span}

/-- A call of a database about which the check may have something to say. -/
def IsWatched (context : CheckContext) (call : Call) (symbol : StorySymbol) : Prop :=
  context.symbols.get? call.key = some symbol ∧ symbol.kind ≠ .unknown
    ∧ symbol.isDatabase = true ∧ symbol.key ∉ context.environment.orphans

theorem mem_idleDatabase_iff : d ∈ idleDatabase call symbol
    ↔ (call.IsWrite ∧ symbol.reads = []
        ∧ d = .warning .databaseNeverRead s!"Database '{symbol.key.display}' is never used in a rule"
          call.signature.range.span)
      ∨ (call.IsRead ∧ symbol.writes = []
        ∧ d = .warning .databaseNeverWritten
          s!"Database '{symbol.key.display}' is never written, this rule can never match"
          call.signature.range.span) := by
  have hwrite : (isInsertion call && symbol.reads.isEmpty) = true
      ↔ call.IsWrite ∧ symbol.reads = [] := by
    rw [Bool.and_eq_true, Call.isInsertion_iff, List.isEmpty_iff]
  have hread : (isQuestion call && symbol.writes.isEmpty) = true
      ↔ call.IsRead ∧ symbol.writes = [] := by
    rw [Bool.and_eq_true, Call.isQuestion_iff, List.isEmpty_iff]
  -- No call both reads and writes, so that the first report never hides the second.
  have hapart : call.IsRead → ¬ call.IsWrite := Call.IsRead.not_isWrite
  unfold idleDatabase
  dsimp only
  split
  next h =>
    have h := hwrite.1 h
    have hnotRead : ¬ call.IsRead := fun hcall => hapart hcall h.1
    simp [h, hnotRead]
  next h =>
    have h := mt hwrite.2 h
    split
    next hasked =>
      have hasked := hread.1 hasked
      simp [hasked, hapart hasked.1]
    next hasked =>
      have hasked := mt hread.2 hasked
      rw [← and_assoc, ← and_assoc]
      simp [h, hasked]

theorem exists_mem_idleDatabase_iff (idle : Idleness) :
    (∃ d ∈ idleDatabase call symbol, d.code = idle.code ∧ d.span = span)
      ↔ idle.Concerns call ∧ idle.ledger.entries symbol = []
        ∧ call.signature.range.span = span := by
  simp only [mem_idleDatabase_iff]
  constructor
  · rintro ⟨d, ⟨hcall, hnone, rfl⟩ | ⟨hcall, hnone, rfl⟩, hcode, hspan⟩
    · cases idle with
      | unread => exact ⟨hcall, hnone, hspan⟩
      | unwritten => cases hcode
    · cases idle with
      | unread => cases hcode
      | unwritten => exact ⟨hcall, hnone, hspan⟩
  · rintro ⟨hcall, hnone, hspan⟩
    cases idle with
    | unread => exact ⟨_, .inl ⟨hcall, hnone, rfl⟩, rfl, hspan⟩
    | unwritten => exact ⟨_, .inr ⟨hcall, hnone, rfl⟩, rfl, hspan⟩

/-- An idle database is reported where a call concerns it and is watched. -/
theorem exists_mem_usageReports_iff (idle : Idleness) :
    (∃ d ∈ usageReports context, d.code = idle.code ∧ d.span = span)
      ↔ ∃ call ∈ context.goal.tree.calls, call.signature.range.span = span
        ∧ idle.Concerns call
        ∧ ∃ symbol, IsWatched context call symbol ∧ idle.ledger.entries symbol = [] := by
  -- Whatever else there is to say about a call is of another kind.
  have hcall (call : Call) (symbol : StorySymbol) :
      (∃ d ∈ (if symbol.kind = .unknown then
            [unresolved context symbol call.signature.range.span]
          else if symbol.isDatabase && !context.environment.orphans.contains symbol.key then
            idleDatabase call symbol
          else []), d.code = idle.code ∧ d.span = span)
        ↔ symbol.kind ≠ .unknown ∧ symbol.isDatabase = true
          ∧ symbol.key ∉ context.environment.orphans
          ∧ idle.Concerns call ∧ idle.ledger.entries symbol = []
          ∧ call.signature.range.span = span := by
    split
    next hkind =>
      have hcode : (unresolved context symbol call.signature.range.span).code ≠ idle.code := by
        rw [code_unresolved]
        cases idle <;> decide
      simp [hkind, hcode]
    next hkind =>
      split
      next hwatched =>
        have hwatched : symbol.isDatabase = true ∧ symbol.key ∉ context.environment.orphans := by
          simpa using hwatched
        rw [exists_mem_idleDatabase_iff]
        simp [hkind, hwatched]
      next hidle =>
        have hidle : symbol.isDatabase = true → symbol.key ∈ context.environment.orphans := by
          simpa using hidle
        simp only [List.not_mem_nil, false_and, exists_false, false_iff]
        tauto
  constructor
  · rintro ⟨d, hd, hcode, hspan⟩
    obtain ⟨call, hmem, hd⟩ := List.mem_flatMap.1 hd
    unfold CheckContext.symbol? at hd
    cases hget : context.symbols.get? call.key with
    | none => simp [hget] at hd
    | some symbol =>
      rw [hget] at hd
      obtain ⟨hkind, hdatabase, hlisted, hconcerns, hnone, hplace⟩ :=
        (hcall call symbol).1 ⟨d, hd, hcode, hspan⟩
      exact ⟨call, hmem, hplace, hconcerns, symbol, ⟨hget, hkind, hdatabase, hlisted⟩, hnone⟩
  · rintro ⟨call, hmem, hplace, hconcerns, symbol, ⟨hget, hkind, hdatabase, hlisted⟩, hnone⟩
    obtain ⟨d, hd, hfound⟩ :=
      (hcall call symbol).2 ⟨hkind, hdatabase, hlisted, hconcerns, hnone, hplace⟩
    refine ⟨d, List.mem_flatMap.2 ⟨call, hmem, ?_⟩, hfound⟩
    unfold CheckContext.symbol?
    rw [hget]
    exact hd

end Check

/-! ## What there is to report about a goal

The lists of a symbol are kept as goals come and go. As they are in order in every story, an empty
list means that there is no such call in any goal, and not only that none was recorded. -/

/-- Whether there is a report of some kind at a call site. -/
def StoryGoal.ReportsAt (goal : StoryGoal) (code : Code) (call : Call) : Prop :=
  ∃ d ∈ goal.diagnostics, d.code = code ∧ d.span = call.signature.range.span

namespace Story

variable {story : Story} {goal : StoryGoal} {call : Call} {name : String}

/-- Only one check reports idle databases, and reading a text does not. -/
theorem reportsAt_checked_iff (idle : Idleness)
    (hreading : ∀ d ∈ goal.readingReports, d.code.isOfReading = true) :
    (story.checked goal).ReportsAt idle.code call
      ↔ ∃ d ∈ Check.usageReports (story.checkContext goal),
          d.code = idle.code ∧ d.span = call.signature.range.span := by
  have hnotReading : idle.code.isOfReading = false := by cases idle <;> rfl
  have hother {check : Check} (h : idle.code ∈ check.codes) : check = .usage := by
    cases idle <;> cases check <;> simp_all [Idleness.code, Check.codes]
  constructor
  · rintro ⟨d, hd, hcode, hspan⟩
    rcases List.mem_append.1 hd with hd | hd
    · have hofReading := hreading d hd
      simp [hcode, hnotReading] at hofReading
    · obtain ⟨found, hfound, rfl⟩ := List.mem_map.1 ((List.mergeSort_perm _ _).mem_iff.1 hd)
      obtain ⟨check, -, hfound⟩ := List.mem_flatMap.1 hfound
      have hcode : found.code = idle.code := hcode
      obtain rfl := hother (hcode ▸ Check.code_mem_codes hfound)
      exact ⟨found, hfound, hcode, hspan⟩
  · rintro ⟨d, hd, hcode, hspan⟩
    refine ⟨d.inFile goal.uri, List.mem_append_right _ ?_, hcode, hspan⟩
    refine (List.mergeSort_perm _ _).mem_iff.2 (List.mem_map_of_mem ?_)
    exact List.mem_flatMap.2 ⟨.usage, by decide, hd⟩

/-- A list of a symbol is empty if no goal has a call site for it. -/
theorem RecordsCalls.entries_eq_nil_iff (h : story.RecordsCalls) (hnames : story.goals.names.Nodup)
    {key : SymbolKey} {symbol : StorySymbol} (hget : story.symbols.get? key = some symbol)
    {ledger : Ledger} : ledger.entries symbol = []
      ↔ ∀ goal ∈ story.goals.goals, ∀ call ∈ goal.tree.calls, call.key = key →
          ledger.takes call = false := by
  -- A ledger lists a goal once for each of its calls of the key that the ledger takes.
  have hcount (goal : StoryGoal) (hgoal : goal ∈ story.goals.goals) :
      (story.symbols.entriesOf ledger key).count goal.name
        = ((goal.tree.calls.filter ledger.takes).map Call.key).count key := by
    rw [h.counts, Trees.callCount, GoalList.trees, GoalList.get?_of_mem hnames hgoal]
    rfl
  rw [SymbolTable.entriesOf_of_get? hget] at hcount
  constructor
  · intro hnone goal hgoal call hcall hkey
    have hzero := hcount goal hgoal
    rw [hnone, List.count_nil] at hzero
    by_contra htakes
    have hmem : key ∈ (goal.tree.calls.filter ledger.takes).map Call.key :=
      List.mem_map.2 ⟨call, List.mem_filter.2 ⟨hcall, by simpa using htakes⟩, hkey⟩
    exact absurd (List.count_pos_iff.2 hmem) (by omega)
  · intro hnone
    refine List.eq_nil_iff_forall_not_mem.2 fun name hname => ?_
    have hlisted := h.counts ledger key name
    rw [SymbolTable.entriesOf_of_get? hget, Trees.callCount, GoalList.trees] at hlisted
    have hpos := List.count_pos_iff.2 hname
    cases hgoal : story.goals.get? name with
    | none =>
      rw [hgoal] at hlisted
      exact absurd hlisted hpos.ne'
    | some goal =>
      rw [hgoal] at hlisted
      obtain ⟨call, hcall, hkey⟩ := List.mem_map.1 (List.count_pos_iff.1 (hlisted ▸ hpos))
      obtain ⟨hcall, htakes⟩ := List.mem_filter.1 hcall
      rw [hnone goal (GoalList.mem_of_get? hgoal) call hcall hkey] at htakes
      cases htakes

/-- Whether a symbol is a database that the story watches: its kind is known, and the project does
not list it among those that nobody need read or write. -/
def Watches (story : Story) (key : SymbolKey) : Prop :=
  NameClass.of key.name = .database ∧ key ∉ story.environment.orphans
    ∧ ∃ symbol, story.symbols.get? key = some symbol ∧ symbol.kind ≠ .unknown

/-- Whether some goal of the story has a call site of a symbol that is of some sort. -/
def Uses (story : Story) (sort : Call → Prop) (key : SymbolKey) : Prop :=
  ∃ goal ∈ story.goals.goals, ∃ call ∈ goal.tree.calls, call.key = key ∧ sort call

/-- Reading a text reports problems of tokens and of the grammar only. -/
theorem isOfReading_of_mem_readingReports (steps : List Step)
    (hgoal : goal ∈ (after steps).goals.goals) :
    ∀ d ∈ goal.readingReports, d.code.isOfReading = true := by
  refine holds_after (fun goal => ∀ d ∈ goal.readingReports, d.code.isOfReading = true)
    (fun _ _ _ _ => rfl) (fun name uri text origin d hd => ?_) steps hgoal
  rw [StoryGoal.ofText] at hd
  dsimp only at hd
  obtain ⟨found, hfound, rfl⟩ := List.mem_map.1 hd
  exact isOfReading_of_mem_parseGoal (d := found) hfound

theorem reportsAt_iff (idle : Idleness) (steps : List Step)
    (hgoal : goal ∈ (after steps).goals.goals) (hcall : call ∈ goal.tree.calls) :
    ((after steps).checked goal).ReportsAt idle.code call
      ↔ idle.Concerns call ∧ (after steps).Watches call.key
        ∧ ¬ (after steps).Uses idle.IsAverted call.key := by
  obtain ⟨header, types, h⟩ := exists_isInOrder_after steps
  rw [reportsAt_checked_iff idle (isOfReading_of_mem_readingReports steps hgoal),
    Check.exists_mem_usageReports_iff]
  constructor
  · rintro ⟨other, hother, hplace, hconcerns, symbol, ⟨hget, hkind, hdatabase, hlisted⟩, hnone⟩
    -- No other call site of the goal is at this place.
    have htree := h.read goal hgoal
    obtain rfl : other = call := eq_of_span_eq (htree ▸ hother) (htree ▸ hcall) hplace
    have hkey := SymbolTable.key_of_get? hget
    rw [StorySymbol.isDatabase, beq_iff_eq, StorySymbol.name, hkey] at hdatabase
    rw [hkey] at hlisted
    refine ⟨hconcerns, ⟨hdatabase, hlisted, symbol, hget, hkind⟩, ?_⟩
    rintro ⟨user, huser, use, huse, hsame, haverted⟩
    have htakes := (h.records.entries_eq_nil_iff h.names hget).1 hnone user huser use huse hsame
    have hname : NameClass.of use.name = .database := by
      rw [← hdatabase, ← hsame]
      rfl
    rw [idle.takes_ledger_iff.2 ⟨hname, haverted⟩] at htakes
    cases htakes
  · rintro ⟨hconcerns, ⟨hdatabase, hlisted, symbol, hget, hkind⟩, hunused⟩
    have hkey := SymbolTable.key_of_get? hget
    refine ⟨call, hcall, rfl, hconcerns, symbol, ⟨hget, hkind, ?_, hkey ▸ hlisted⟩, ?_⟩
    · rw [StorySymbol.isDatabase, beq_iff_eq, StorySymbol.name, hkey]
      exact hdatabase
    · refine (h.records.entries_eq_nil_iff h.names hget).2 fun user huser use huse hsame => ?_
      refine Bool.eq_false_iff.2 fun htakes => hunused ⟨user, huser, use, huse, hsame, ?_⟩
      exact (idle.takes_ledger_iff.1 htakes).2

theorem uses_checkGoal {sort : Call → Prop} {key : SymbolKey} :
    (story.checkGoal name).Uses sort key ↔ story.Uses sort key := by
  have htree := (story.annotates_checked fun goal => goal.name = name).tree
  constructor
  · rintro ⟨user, huser, hcalls⟩
    obtain ⟨old, hold, rfl⟩ := List.mem_map.1 huser
    exact ⟨old, hold, htree old ▸ hcalls⟩
  · rintro ⟨user, huser, hcalls⟩
    exact ⟨_, List.mem_map_of_mem huser, (htree user).symm ▸ hcalls⟩

/-- **Warnings about idle databases tell the truth about the whole story.** Whatever was done to a
story, once a goal has just been checked its reports tell that a database is never read at exactly
those call sites that write a watched database which no goal of the story reads, and that one is
never written at exactly those that read a watched database which no goal writes. -/
theorem idle_databases_are_reported (steps : List Step)
    (hgoal : ((after steps).checkGoal name).goals.get? name = some goal)
    (hcall : call ∈ goal.tree.calls) :
    let story := (after steps).checkGoal name
    (goal.ReportsAt .databaseNeverRead call
        ↔ call.IsWrite ∧ story.Watches call.key ∧ ¬ story.Uses Call.IsRead call.key)
      ∧ (goal.ReportsAt .databaseNeverWritten call
        ↔ call.IsRead ∧ story.Watches call.key ∧ ¬ story.Uses Call.IsWrite call.key) := by
  intro story
  -- What was checked is the goal as it was before, and the check changed nothing but its reports.
  obtain ⟨old, hold, rfl⟩ : ∃ old, (after steps).goals.get? name = some old
      ∧ (after steps).checked old = goal := by
    rw [checkGoal, GoalList.modify, GoalList.get?_map
      ((after steps).annotates_checked fun goal => goal.name = name).name] at hgoal
    obtain ⟨old, hold, rfl⟩ := Option.map_eq_some_iff.1 hgoal
    exact ⟨old, hold, by rw [if_pos (GoalList.name_of_get? hold)]⟩
  have hmem := GoalList.mem_of_get? hold
  have hreports (idle : Idleness) : ((after steps).checked old).ReportsAt idle.code call
      ↔ idle.Concerns call ∧ story.Watches call.key ∧ ¬ story.Uses idle.IsAverted call.key := by
    rw [uses_checkGoal]
    exact reportsAt_iff idle steps hmem hcall
  exact ⟨hreports .unread, hreports .unwritten⟩

/-- A story of one goal, which writes a database that it does not read. -/
def lonelyWriter : List Step :=
  [.restart { header := .inMemory "story_header" "", goals := [] },
    .update "A" "memory:///A" "INITSECTION DB_X(1); KBSECTION EXITSECTION ENDEXITSECTION" .local,
    .finish]

/-- The goal is told that nothing reads the database, and this is so. -/
theorem lonely_write_is_reported : (after lonelyWriter).phase = .ready
    ∧ ∃ goal call, ((after lonelyWriter).checkGoal "A").goals.get? "A" = some goal
      ∧ call ∈ goal.tree.calls ∧ goal.ReportsAt .databaseNeverRead call
      ∧ ¬ ((after lonelyWriter).checkGoal "A").Uses Call.IsRead call.key := by
  have hready : (after lonelyWriter).phase = .ready := by decide +kernel
  have hreported : (((after lonelyWriter).checkGoal "A").goals.get? "A").any (fun goal =>
      goal.tree.calls.any fun call => goal.diagnostics.any fun d =>
        d.code == .databaseNeverRead && d.span == call.signature.range.span) = true := by
    decide +kernel
  obtain ⟨goal, hgoal, hreported⟩ := (Option.any_eq_true _ _).1 hreported
  obtain ⟨call, hcall, hreported⟩ := List.any_eq_true.1 hreported
  obtain ⟨d, hd, hfound⟩ := List.any_eq_true.1 hreported
  have hreport : goal.ReportsAt .databaseNeverRead call := ⟨d, hd, by simpa using hfound⟩
  obtain ⟨-, -, hunread⟩ := (idle_databases_are_reported lonelyWriter hgoal hcall).1.1 hreport
  exact ⟨hready, goal, call, hgoal, hcall, hreport, hunread⟩

end Story

end StoryCheck
