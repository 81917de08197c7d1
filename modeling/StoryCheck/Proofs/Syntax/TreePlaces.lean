import StoryCheck.Proofs.Syntax.Placement

/-!
# Where the nodes of a tree stand

Every rule of the two grammars puts its node around those of the rules that it calls, and takes
these in the order in which they are written. So the trees of goals and headers stand in their
texts, whatever damage these have.

* **`Parse.lays_goal`**, **`Parse.lays_header`** — the nodes of a tree, one behind the other.
* **`syntax_trees_are_sound`** — the arena of a tree is a tree, and its nodes have their places in
  the text.
-/

namespace StoryCheck.Syntax

namespace Parse

open Cursor

variable {α : Type} {text : String} {s : Cursor} {stops stop : KindSet}

/-! ## Parameters

A rule of the grammar *lays* nodes: they stand one behind the other on the stretch it took. Every
lemma of this module follows one rule along its definition and puts the nodes of its parts into the
node it builds. -/

/-- A term is written by a token, not by the end of the text. -/
theorem exists_ahead_of_term {term : Term} (hs : s.IsIn text)
    (hterm : termOfToken? s.peek = some term) : ∃ rest, s.ahead = s.peek :: rest := by
  cases hahead : s.ahead with
  | nil =>
    have hpeek : s.peek = s.ending := by simp [Cursor.peek, hahead]
    simp [hpeek, termOfToken?, hs.ending] at hterm
  | cons token rest => exact ⟨rest, by simp [Cursor.peek, hahead]⟩

/-- An argument is one node. -/
theorem lays_argument : Lays text [] argument fun a => [a.toNode] := by
  refine .behind (fun a : Argument => [a.toNode]) fun s hs => ?_
  rw [argument, bind_apply, peek_apply]
  cases hterm : termOfToken? s.peek with
  | none =>
    have habsent : Lays text [] (do return (⟨.name "", ← missingRange⟩ : Argument))
        fun a => [a.toNode] := .bind lays_missingRange fun range => .pure rfl
    exact (Lays.skip (advances_reportUnexpected "parameter value") fun _ => habsent).alone hs
  | some term =>
    obtain ⟨rest, hahead⟩ := exists_ahead_of_term hs hterm
    dsimp only
    split
    · have hreported {d : Diagnostic} (hplace : d.span.start = s.peek.range.span.start)
          (hcode : d.code.isOfReading = true) :
          s.Lays text [Argument.toNode ⟨term, s.peek.range⟩] (take (report d s).2).2 :=
        have hreport : s.Lays text [] (report d s).2 := (advances_report s hplace hcode).lays
        hreport.trans hs (lays_take _ (hreport.isIn hs) hahead)
      exact hreported rfl rfl
    · exact lays_take _ hs hahead

/-- A type is one node without parts. -/
theorem lays_typeHint : Lays text [] (typeHint stops) fun type => [.leaf .typeHint type.range] := by
  refine .leaf .typeHint (fun name range => ⟨name, range⟩) ?_ (fun _ _ => rfl) fun _ _ => rfl
  refine .bind advances_take.discard fun _ => .bind advances_expect fun _ => ?_
  exact .bind advances_expect fun _ => .ite (.bind advances_skipPast fun _ => .pure) .pure

/-- The node of a type, if there is one. -/
def typeNodes (type : Option TypeHint) : List Node :=
  (type.map fun type => Node.leaf .typeHint type.range).toList

/-- A parameter is one node, with its type and its argument. -/
theorem lays_parameter : Lays text [] (parameter stops) fun p => [p.toNode] := by
  refine .node (fun _ => .parameter) (fun parts => typeNodes parts.2.1 ++ [parts.2.2.toNode])
    (fun parts range => ⟨parts.1, parts.2.1, parts.2.2, range⟩) ?_ (fun _ _ => rfl) fun _ _ => rfl
  refine .skip advances_flow fun flow => .skip advances_isAt fun _ => ?_
  have hargument (type : Option TypeHint) : Lays text (typeNodes type)
      (do return (flow, type, ← argument))
      fun parts => typeNodes parts.2.1 ++ [parts.2.2.toNode] :=
    .bind lays_argument fun argument => .pure rfl
  have htype : Lays text [] (some <$> typeHint stops) typeNodes :=
    .bind lays_typeHint fun type => .pure rfl
  have hnone : Lays text [] (pure none) typeNodes := .pure rfl
  exact .ite (.bind htype hargument) (.bind hnone hargument)

/-- A list of parameters is one node for each. -/
theorem lays_parameterList (bound : Nat) :
    Lays text [] (parameterList stops bound) (·.map Parameter.toNode) := by
  -- The rule calls itself behind each comma.
  induction bound with
  | zero => exact .pure rfl
  | succ bound ih =>
    refine .skip advances_isAtAny fun _ => .ite (.skip advances_unclosed fun _ => .pure rfl) ?_
    refine .bind lays_parameter fun first => .skip advances_eat fun _ => ?_
    refine .ite (.bind ih fun more => .pure rfl) (.skip advances_eat fun _ => ?_)
    exact .ite (.skip advances_unclosed fun _ => .pure rfl) (.pure rfl)

/-! ## Signatures

The owner in front of a dot is the first parameter of the signature, but stands before its name.
Nodes are therefore put in the order of the text. -/

/-- The nodes of the parts of a signature. -/
def signatureNodes (named : Identifier × List Parameter) : List Node :=
  (Signature.toNode ⟨named.1, named.2, default⟩).children

/-- Owners in front of the name of a signature and other parameters behind it keep their places. -/
theorem signatureNodes_eq {identifier : Identifier} {owners parameters : List Parameter}
    (howners : ∀ p ∈ owners, p.range.IsNonempty)
    (hroom : identifier.range.span.start ≤ identifier.range.span.stop)
    (horder : (owners.map Parameter.toNode ++ [identifier.toNode]
      ++ parameters.map Parameter.toNode).Pairwise
        fun a b => a.range.span.stop ≤ b.range.span.start) :
    signatureNodes (identifier, owners ++ parameters)
      = owners.map Parameter.toNode ++ [identifier.toNode] ++ parameters.map Parameter.toNode := by
  obtain ⟨hfront, -, hback⟩ := List.pairwise_append.1 horder
  have hbefore : ∀ p ∈ owners, p.range.span.start < identifier.range.span.start := by
    intro p hmem
    have hstop := (List.pairwise_append.1 hfront).2.2 p.toNode (List.mem_map_of_mem hmem)
      identifier.toNode List.mem_cons_self
    exact Nat.lt_of_lt_of_le (howners p hmem) hstop
  have hbehind : ∀ p ∈ parameters, identifier.range.span.start ≤ p.range.span.start := by
    intro p hmem
    have hstop := hback identifier.toNode (by simp) p.toNode (List.mem_map_of_mem hmem)
    exact Nat.le_trans hroom hstop
  have hpartition : (owners ++ parameters).partition
      (fun p => p.range.span.start < identifier.range.span.start) = (owners, parameters) := by
    rw [List.partition_eq_filter_filter, List.filter_append, List.filter_append,
      List.filter_eq_self.2 (by simpa using hbefore),
      List.filter_eq_nil_iff.2 (by simpa using hbehind),
      List.filter_eq_nil_iff.2 (by simpa using hbefore),
      List.filter_eq_self.2 (by simpa using hbehind), List.append_nil, List.nil_append]
  rw [signatureNodes, Signature.toNode, hpartition, List.append_assoc]
  rfl

/-- What comes behind the name of a signature. -/
theorem lays_parameters (identifier : Identifier) (owners : List Parameter)
    (howners : ∀ p ∈ owners, p.range.IsNonempty) :
    Lays text (owners.map Parameter.toNode ++ [identifier.toNode])
      (do
        if (← expect .lParen "'('").isNone then
          return (identifier, owners)
        if (← eat .rParen).isSome then
          return (identifier, owners)
        return (identifier, owners ++ (← parameterList stops ((← get).ahead.length + 1))))
      signatureNodes := by
  have hparts (parameters : List Parameter) : Lays text (owners.map Parameter.toNode
      ++ [identifier.toNode] ++ parameters.map Parameter.toNode)
      (pure (identifier, owners ++ parameters)) signatureNodes :=
    .pure_of fun hplaced horder => signatureNodes_eq howners
      (hplaced identifier.toNode (by simp)).range_isIn.start_le_stop horder
  have hnone : Lays text (owners.map Parameter.toNode ++ [identifier.toNode])
      (pure (identifier, owners)) signatureNodes := by simpa using hparts []
  refine .skip advances_expect fun _ => .ite hnone (.skip advances_eat fun _ => .ite hnone ?_)
  exact .skip advances_get fun _ => .bind (lays_parameterList _) hparts

/-- The name before a dot is an owner and the one behind it that of the signature. -/
theorem lays_dotted {first dot name : Token} {rest : List Token} (hs : s.IsIn text)
    (hahead : s.ahead = first :: dot :: name :: rest) :
    s.Lays text ([ownerParameter first].map Parameter.toNode ++ [(Identifier.ofToken name).toNode])
      { s with ahead := rest, last := name } := by
  have howner := (lays_token .identifier hs hahead).wrap .parameter hs
  rw [rangeTo_token hahead] at howner
  have hdot := howner.trans hs (LeadsTo.lays ⟨_, _, passes_token rfl⟩)
  exact hdot.trans hs (lays_token .identifier (hdot.isIn hs) rfl)

/-- A signature is one node. With an owner, the nodes of owner and name come in the order in which
they stand and not in that of the tree. -/
theorem lays_signature : Lays text [] (signature stops) fun signature => [signature.toNode] := by
  refine .node (fun _ => .signature) signatureNodes
    (fun named range => ⟨named.1, named.2, range⟩) ?_ (fun _ _ => rfl) fun _ _ => rfl
  refine .behind signatureNodes fun s hs => ?_
  -- Whether the name is an owner shows only behind it, so its node is made when it is passed.
  have hname : TokenKind.identifier ≠ .endOfFile := by decide
  rw [bind_apply, expect, bind_apply]
  rcases eat_cases hname s with ⟨first, rest, hahead, -, heat⟩ | ⟨-, heat⟩
  · rw [heat]
    dsimp only
    rw [pure_apply]
    dsimp only
    rw [bind_apply, isAt_apply, bind_apply, kindAt_apply]
    dsimp only
    split
    next hat =>
      obtain ⟨dot, name, left, rfl⟩ : ∃ dot name left, rest = dot :: name :: left := by
        rcases rest with _ | ⟨dot, _ | ⟨name, left⟩⟩
        · simp [Cursor.kindAt] at hat
        · simp [Cursor.kindAt] at hat
        · exact ⟨dot, name, left, rfl⟩
      have hroom : (ownerParameter first).range.IsNonempty :=
        hs.inOrder.room first (by simp [hahead])
      exact lays_parameters (.ofToken name) [ownerParameter first] (by simpa using hroom) s _ hs
        (lays_dotted hs hahead)
    next => exact lays_parameters (.ofToken first) [] (by simp) s _ hs (lays_token _ hs hahead)
  · rw [heat]
    have habsent : Lays text []
        (do return ((⟨"", ← missingRange⟩ : Identifier), ([] : List Parameter))) signatureNodes :=
      .bind lays_missingRange fun range => .pure rfl
    exact (Lays.skip (advances_reportMissing "symbol name") fun _ => habsent).alone hs

/-! ## Conditions and actions

For each production, the nodes that it makes and where they stand. -/

/-- Passing over a token lays nothing. -/
theorem lays_passOver {before : List Node} {expected : String} {targets : KindSet}
    {nodes : Option (List α) → List Node} (hnone : nodes (some []) = before) :
    Lays text before (do
      reportUnexpected expected
      discard take
      skipUntil stops targets
      return some []) nodes :=
  .skip (advances_reportUnexpected _) fun _ => .skip advances_take.discard fun _ =>
    .skip advances_skipUntil fun _ => .pure hnone

/-- The nodes of the parts of a condition. -/
def formNodes (form : Condition.Form) : List Node := (Condition.toNode ⟨form, default⟩).children

/-- A comparison lays the nodes of its two sides. -/
theorem lays_comparison : Lays text [] (comparison stops) formNodes := by
  refine .bind lays_parameter fun left => .skip (advances_kindAt 0) fun kind => ?_
  cases Operator.ofKind? kind with
  | some operator =>
    exact .skip advances_take.discard fun _ => .bind lays_parameter fun right => .pure rfl
  | none =>
    have hmissing : Lays text [left.toNode] (do
        skipUntil stops []
        return Condition.Form.comparison .equal left (.missing (← missingRange))) formNodes :=
      .skip advances_skipUntil fun _ => .bind lays_missingRange fun range => .pure rfl
    exact .skip advances_isReportedHere fun _ =>
      .ite (.skip (advances_reportUnexpected _) fun _ => hmissing) hmissing

/-- A condition is one node. -/
theorem lays_condition : Lays text [] (condition stops) fun condition => [condition.toNode] := by
  refine .node (fun form => (Condition.toNode ⟨form, default⟩).kind) formNodes
    (fun form range => ⟨form, range⟩) ?_ (fun _ _ => rfl) fun s range => ?_
  · refine .skip advances_eat fun _ => .ite (.bind lays_signature fun _ => .pure rfl) ?_
    refine .skip advances_isAt fun _ => .skip (advances_kindAt 1) fun _ => .ite ?_ lays_comparison
    exact .bind lays_signature fun _ => .pure rfl
  · generalize Prod.fst _ = form
    cases form <;> rfl

/-- The conditions of a rule are one node, also where there are none. -/
theorem lays_conditionBlock :
    Lays text [] (conditionBlock stops) fun block => [block.toNode] := by
  refine .node (fun _ => .conditionBlock) (·.map Condition.toNode)
    (fun conditions range => ⟨conditions, range⟩) ?_ (fun _ _ => rfl) fun _ _ => rfl
  refine .many rfl (fun _ _ => List.map_append) (.skip advances_eat fun _ => .ite ?_ (.pure rfl))
  exact .bind lays_condition fun condition => .pure rfl

/-- An action is one node. -/
theorem lays_action : Lays text [] (action stops stop) fun action => [action.toNode] := by
  refine .node (fun form => (Action.toNode ⟨form, default⟩).kind)
    (fun form => (Action.toNode ⟨form, default⟩).children) (fun form range => ⟨form, range⟩) ?_
    (fun _ _ => rfl) fun s range => ?_
  · refine .skip advances_eat fun _ => .ite (.skip advances_expect.discard fun _ => .pure rfl) ?_
    refine .skip advances_eat fun _ => .bind lays_signature fun signature => ?_
    refine .skip advances_expect fun _ => .ite (.skip advances_isAtAny fun _ => ?_) (.pure rfl)
    refine .ite ?_ (.pure rfl)
    exact .skip advances_skipUntil fun _ => .skip advances_eat.discard fun _ => .pure rfl
  · generalize Prod.fst _ = form
    cases form <;> rfl

/-- A block of actions is one node. -/
theorem lays_actionBlock :
    Lays text [] (actionBlock stops stop) fun block => [block.toNode] := by
  refine .node (fun _ => .actionBlock) (·.map Action.toNode)
    (fun actions range => ⟨actions, range⟩) ?_ (fun _ _ => rfl) fun _ _ => rfl
  refine .many rfl (fun _ _ => List.map_append) ?_
  refine .skip advances_isAtAny fun _ => .skip advances_isAtStop fun _ => .ite (.pure rfl) ?_
  refine .skip advances_isAtAny fun _ => .ite (.bind lays_action fun action => .pure rfl) ?_
  exact lays_passOver rfl

/-! ## Rules and goals

A rule gets its node from the keyword on, after its body has been read. -/

/-- Actions are reported if there are none, which lays nothing. -/
theorem lays_nonemptyBlock {before : List Node} {message : String} {result : ActionBlock → α}
    {nodes : α → List Node} (hresult : ∀ block, nodes (result block) = before ++ [block.toNode]) :
    Lays text before (do
      let actions ← actionBlock stops stop
      if actions.actions.isEmpty then
        report (.warning .emptyActionBlock message actions.range.span)
      return result actions) nodes := by
  refine .bind lays_actionBlock fun block => .ite ?_ (.pure (hresult block))
  exact .report fun _ => .pure (hresult block)

/-- The body of a rule lays the parts of the rule. The node of the rule itself starts earlier, at
the keyword. -/
theorem lays_ruleBody (keyword : Token) : Lays text [] (ruleBody stops keyword)
    fun build => (build default).toNode.children := by
  refine .bind lays_signature fun head => .bind lays_conditionBlock fun conditions => ?_
  refine .skip advances_expect fun _ => .ite (.skip advances_isAt fun _ => ?_) ?_
  · refine .skip (advances_kindAt 1) fun _ => .ite ?_ (lays_nonemptyBlock fun block => rfl)
    exact .skip advances_skipUntil fun _ => .skip advances_eat.discard fun _ =>
      lays_nonemptyBlock fun block => rfl
  · exact lays_nonemptyBlock fun block => rfl

/-- A rule is one node. -/
theorem lays_rule : Lays text [] (rule stops) fun rule => [rule.toNode] := by
  show Lays text [] (ranged (take >>= ruleBody stops) >>= fun result => pure (result.1 result.2)) _
  refine .node (fun _ => .rule) (fun build => (build default).toNode.children)
    (fun build range => build range) (.skip advances_take lays_ruleBody) (fun _ _ => rfl) ?_
  refine .bind fun keyword s range => ?_
  rw [(gives_ruleBody stops keyword s range).2]
  rfl

/-- The rules of a goal are one node each. -/
theorem lays_rules : Lays text [] (rules stops) (·.map Rule.toNode) := by
  refine .many rfl (fun _ _ => List.map_append) ?_
  refine .skip advances_isAtStop fun _ => .ite (.pure rfl) ?_
  refine .skip advances_isAtAny fun _ => .ite (.bind lays_rule fun rule => .pure rfl) ?_
  exact lays_passOver rfl

/-- A goal is one node, with all others in it. -/
theorem lays_goal : Lays text [] goal fun goal => [goal.toNode] := by
  refine .node (fun _ => .storyGoal) (fun build => (build default).toNode.children)
    (fun build range => build range) ?_ (fun _ _ => rfl) ?_
  · refine .skip advances_headerOptions fun _ => .skip advances_expect.discard fun _ => ?_
    refine .bind lays_actionBlock fun init => .skip advances_expect.discard fun _ => ?_
    refine .bind lays_rules fun rules => .skip advances_expect.discard fun _ => ?_
    refine .bind lays_actionBlock fun exit => .skip advances_expect.discard fun _ => ?_
    refine .skip advances_footerOptions fun _ => .pure ?_
    simp [Goal.toNode, Node.children]
  · refine .bind fun _ => .bind fun _ => .bind fun _ => .bind fun _ => .bind fun _ => ?_
    exact .bind fun _ => .bind fun _ => .bind fun _ => .bind fun _ => .pure fun range => rfl

/-! ## Headers

The entries of a header are nodes of the tree in groups: first all aliases, then all declarations,
then all goals. As they stand in another order in the text, the nodes of a header are laid up to a
permutation. -/

/-- The nodes of an entry of a header. -/
def entryNodes : HeaderEntry → List Node
  | .typeAlias _ => []
  | .definition definition => [definition.toNode]
  | .goal goal _ => [.leaf .divGoal goal.range]

/-- A declaration is one node. -/
theorem lays_definition {kind : DeclarationKind} :
    Lays text [] (definition kind) fun definition => [definition.toNode] := by
  refine .node (fun _ => .definition) (fun signature => [signature.toNode])
    (fun signature range => ⟨kind, signature, range⟩) ?_ (fun _ _ => rfl) fun _ _ => rfl
  refine .skip advances_take.discard fun _ => .bind lays_signature fun signature => ?_
  refine .skip advances_isAt fun _ => .ite (.skip advances_skipPast fun _ => ?_) ?_
  all_goals exact .skip advances_eat.discard fun _ => .pure rfl

/-- An entry lays the nodes that it is. -/
theorem lays_headerEntry (source : List Char) :
    Lays text [] (headerEntry source) fun found => (found.getD []).flatMap entryNodes := by
  have hunexpected : Lays text [] headerEntry.unexpected fun found =>
      (found.getD []).flatMap entryNodes :=
    .skip (advances_reportUnexpected _) fun _ => .skip advances_take.discard fun _ => .pure rfl
  refine .skip advances_peek fun token => ?_
  split
  · exact .pure rfl
  · split
    · refine .skip advances_aliasParts.ranged fun found => .pure ?_
      cases found.1 <;> rfl
    · exact .skip advances_headerOption fun _ => .pure rfl
    · exact .skip advances_headerOption fun _ => .pure rfl
    · exact .leaf .divGoal (fun parts range =>
        some [.goal (.ofEntries source parts.1 parts.2 range) (parts.2.filterMap GoalEntry.block?)])
        spares_goalEntries.advances (fun _ _ => rfl) fun _ _ => rfl
    · split
      · exact .bind lays_definition fun definition => .pure rfl
      · exact hunexpected
  · exact hunexpected

/-- The entries that a step gives cover something. -/
def Covers (s : Cursor) (step : Parse (Option (List HeaderEntry))) : Prop :=
  ∀ entry ∈ (step s).1.getD [], ∀ node ∈ entryNodes entry, node.range.IsNonempty

/-- Looking at the next token takes none. -/
theorem covers_bind_peek {f : Token → Parse (Option (List HeaderEntry))}
    (h : Covers s (f s.peek)) : Covers s (peek >>= f) := h

/-- A goal takes a token at least. -/
theorem shortens_goalEntries (hne : s.ahead ≠ []) :
    (goalEntries s).2.ahead.length < s.ahead.length := by
  refine shortens_bind (shortens_take hne) fun _ => .bind advances_bracketedInteger fun _ => ?_
  refine .bind advances_expect fun _ => .ite .pure ?_
  exact .bind (.many spares_goalEntry.advances) fun _ => .bind advances_expect.discard fun _ => .pure

/-- A declaration takes a token at least. -/
theorem shortens_definition {kind : DeclarationKind} (hne : s.ahead ≠ []) :
    (definition kind s).2.ahead.length < s.ahead.length := by
  refine shortens_bind (shortens_ranged (shortens_bind (shortens_take hne) fun _ => ?_))
    fun ⟨_, _⟩ => .pure
  refine .bind advances_signature fun _ => .bind advances_isAt fun _ => .ite ?_ ?_
  · exact .bind advances_skipPast fun _ => .bind advances_eat.discard fun _ => .pure
  · exact .bind advances_eat.discard fun _ => .pure

/-- An entry covers the word that opens it. -/
theorem covers_headerEntry {source : List Char} (hs : s.IsIn text) :
    Covers s (headerEntry source) := by
  have hnone {step : Parse (Option (List HeaderEntry))} (h : (step s).1.getD [] = []) :
      Covers s step := fun entry hentry => absurd (h ▸ hentry) List.not_mem_nil
  refine covers_bind_peek ?_
  split
  · exact hnone rfl
  next hkind =>
    -- The token at the end of the text is no word, so there is one to take.
    have hne : s.ahead ≠ [] := by
      intro hnone
      have hpeek : s.peek = s.ending := by simp [Cursor.peek, hnone]
      simp [hpeek, hs.ending] at hkind
    split
    · intro entry hentry node hnode
      cases hparts : (aliasParts s).1 with
      | none => simp [bind_apply, ranged_apply, pure_apply, hparts] at hentry
      | some parts =>
        have halias : entry = .typeAlias ⟨parts.2, parts.1, s.rangeTo (aliasParts s).2⟩ := by
          simpa [bind_apply, ranged_apply, pure_apply, hparts] using hentry
        subst halias
        cases hnode
    · exact hnone rfl
    · exact hnone rfl
    · intro entry hentry node hnode
      obtain rfl := List.mem_singleton.1 hentry
      obtain rfl := List.mem_singleton.1 hnode
      exact (spares_goalEntries.advances s).isNonempty_rangeTo hs (shortens_goalEntries hne)
    · split
      next kind _ =>
        have hadvances : Advances (definition kind) := advances_definition
        intro entry hentry node hnode
        obtain rfl := List.mem_singleton.1 hentry
        obtain rfl := List.mem_singleton.1 hnode
        exact (hadvances s).isNonempty_rangeTo hs (shortens_definition hne)
      next => exact hnone rfl
  next => exact hnone rfl

/-- The header of entries. -/
def headerOf (entries : List HeaderEntry) (range : Range) : Header :=
  { definitions := entries.filterMap fun | .definition d => some d | _ => none
    goals := entries.filterMap fun | .goal goal _ => some goal | _ => none
    aliases := entries.filterMap fun | .typeAlias a => some a | _ => none
    range }

/-- A header is the entries of its text with the range of all of them. -/
theorem header_apply (source : List Char) (s : Cursor) :
    header source s =
      ((headerOf (many (headerEntry source) s).1 (s.rangeTo (many (headerEntry source) s).2),
        (many (headerEntry source) s).1.flatMap HeaderEntry.blocks),
        (many (headerEntry source) s).2) := rfl

/-- Definitions and goals of a header are its entries in another order. -/
theorem perm_entryNodes (entries : List HeaderEntry) (range : Range) :
    ((headerOf entries range).definitions.map Definition.toNode
      ++ (headerOf entries range).goals.map fun goal => Node.leaf .divGoal goal.range).Perm
      (entries.flatMap entryNodes) := by
  induction entries with
  | nil => exact .nil
  | cons entry rest ih =>
    cases entry with
    | typeAlias base => exact ih
    | definition definition => exact ih.cons _
    | goal goal blocks => exact List.perm_middle.trans (ih.cons _)

/-- In the order in which they start the parts of a header stand as they were read. -/
theorem toNode_headerOf {entries : List HeaderEntry} {range : Range}
    (horder : (entries.flatMap entryNodes).Pairwise fun a b =>
      a.range.span.start < b.range.span.start) :
    (headerOf entries range).toNode = .mk .div range (entries.flatMap entryNodes) := by
  have hperm := (List.mergeSort_perm _ fun a b : Node =>
    decide (a.range.span.start ≤ b.range.span.start)).trans (perm_entryNodes entries range)
  have hstarts : ((entries.flatMap entryNodes).map fun node => node.range.span.start).Nodup :=
    List.pairwise_map.2 (horder.imp Nat.ne_of_lt)
  -- No two parts start at one place, so there is one order by start only.
  refine congrArg (Node.mk .div range) (hperm.eq_of_pairwise (fun a b ha hb hab hba => ?_)
    (List.pairwise_mergeSort ?_ ?_ _) (horder.imp fun hlt => by simpa using Nat.le_of_lt hlt))
  · exact List.inj_on_of_nodup_map hstarts (hperm.mem_iff.1 ha) hb
      (Nat.le_antisymm (by simpa using hab) (by simpa using hba))
  · simpa using fun a b c => Nat.le_trans
  · simpa using fun a b => Nat.le_total _ _

/-- A header is one node. -/
theorem lays_header (source : List Char) (hs : s.IsIn text) :
    s.Lays text [(header source s).1.1.toNode] (header source s).2 := by
  have hentries : Lays text [] (many (headerEntry source)) (·.flatMap entryNodes) :=
    .many rfl (fun _ _ => List.flatMap_append) (lays_headerEntry source)
  have hlays := hentries.alone hs
  have hcovers : ∀ node ∈ (many (headerEntry source) s).1.flatMap entryNodes,
      node.range.IsNonempty := by
    intro node hmem
    obtain ⟨entry, hentry, hnode⟩ := List.mem_flatMap.1 hmem
    obtain ⟨t, ht, hentry⟩ := exists_of_mem_many spares_headerEntry.advances hs hentry
    exact covers_headerEntry ht entry hentry node hnode
  rw [header_apply, toNode_headerOf]
  · exact hlays.wrap .div hs
  · obtain ⟨taken, hcarries⟩ := hlays
    exact hcarries.order.imp_of_mem fun {a b} ha _ hle => Nat.lt_of_lt_of_le (hcovers a ha) hle

end Parse

/-! ## Trees

The node of the whole tree, from the tokens of the text on. -/

/-- A node that is laid stands in the text. -/
theorem Cursor.Lays.isPlaced {text : String} {s s' : Cursor} {node : Node}
    (h : s.Lays text [node] s') : node.IsPlaced text := by
  obtain ⟨taken, h⟩ := h
  exact h.placed node List.mem_cons_self

/-- A goal stands in its text. -/
theorem isPlaced_goal (text : String) : (parseGoal text).tree.toNode.IsPlaced text := by
  have hlays : Parse.Lays text [] goal fun goal => [goal.toNode] := Parse.lays_goal
  have hplaced := (hlays.alone (Cursor.isIn_ofText text)).isPlaced
  rw [parseGoal, parseGoalTokens]
  generalize goal = step at *
  exact hplaced

/-- A header stands in its text. -/
theorem isPlaced_header (text : String) : (parseHeader text).tree.toNode.IsPlaced text :=
  (Parse.lays_header text.toList (Cursor.isIn_ofText text)).isPlaced

/-- **Syntax trees are well-formed**: whatever a text looks like, the nodes of the goal and of the
header that are read from it form a tree that a walk from the root goes through once, and each node
stands in the text with its parts in order and within it. -/
theorem syntax_trees_are_sound (text : String) :
    (Arena.ofNode (parseGoal text).tree.toNode).IsSound text
      ∧ (Arena.ofNode (parseHeader text).tree.toNode).IsSound text :=
  ⟨Arena.isSound_ofNode (isPlaced_goal text), Arena.isSound_ofNode (isPlaced_header text)⟩

end StoryCheck.Syntax
