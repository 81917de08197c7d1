import StoryCheck.Proofs.Syntax.Acceptance
import StoryCheck.Proofs.Syntax.DeepestNode
import StoryCheck.Proofs.Syntax.HeaderContents
import StoryCheck.Proofs.Syntax.CallPlaces

/-!
# Nodes that touch

In a text that follows the grammar most parts of a node have a token between them. Those that have
none can touch: then the offset between them is in both.

* **`Row`** — tokens one behind the other, and `Node.Strung` the same for nodes. `Strung.apart` and
  `Strung.touching` put nodes together that have a token between them or none.
* **`Row.fits_goal`** — the nodes of a goal, production by production, away from actions that touch.
* **`Row.not_isDeepestAt_block`** — what the walk misses between two actions that touch.
* **`WrittenGoal.isDeepestAt_iff`** — where the walk ends at a deepest node of a goal.
-/

namespace StoryCheck.Syntax

/-! ## Rows of tokens

Tokens that take up room and stand one behind the other. Parts of such a row are rows again. -/

/-- Tokens that take up room, one behind the other between two offsets. -/
inductive Row : (low : Nat) → List Token → (high : Nat) → Prop
  | nil {low high : Nat} (le : low ≤ high) : Row low [] high
  | cons {low high : Nat} {token : Token} {rest : List Token} (le : low ≤ token.range.span.start)
    (room : token.range.span.start < token.range.span.stop)
    (more : Row token.range.span.stop rest high) : Row low (token :: rest) high

namespace Row

variable {low high : Nat} {token next : Token} {tokens front back : List Token}

theorem le (h : Row low tokens high) : low ≤ high := by
  induction h with
  | nil le => exact le
  | cons le room more ih => omega

theorem of_cons (h : Row low (token :: tokens) high) : low ≤ token.range.span.start
    ∧ token.range.span.start < token.range.span.stop ∧ Row token.range.span.stop tokens high := by
  cases h with
  | cons le room more => exact ⟨le, room, more⟩

theorem of_append (h : Row low (front ++ back) high) : ∃ mid, Row low front mid ∧ Row mid back high := by
  induction front generalizing low with
  | nil => exact ⟨low, .nil (Nat.le_refl _), h⟩
  | cons token front ih =>
    cases h with
    | cons le room more =>
      obtain ⟨mid, hfront, hback⟩ := ih more
      exact ⟨mid, .cons le room hfront, hback⟩

/-- A part of a row is a row. -/
theorem of_part {part : List Token} (h : Row low tokens high) (hpart : part <:+: tokens) :
    ∃ low high, Row low part high := by
  obtain ⟨front, back, rfl⟩ := hpart
  obtain ⟨last, hfront, -⟩ := h.of_append
  obtain ⟨first, -, hpart⟩ := hfront.of_append
  exact ⟨first, last, hpart⟩

theorem of_mem_flatMap {α : Type} {items : List α} {f : α → List Token} {item : α}
    (h : Row low (items.flatMap f) high) (hmem : item ∈ items) : ∃ low high, Row low (f item) high := by
  obtain ⟨front, back, rfl⟩ := List.append_of_mem hmem
  exact h.of_part ⟨front.flatMap f, back.flatMap f, by simp⟩

/-- Without tokens there are no parts that take some. -/
theorem eq_nil_of_flatMap {α : Type} {items : List α} {f : α → List Token}
    (hne : ∀ item, f item ≠ []) (h : items.flatMap f = []) : items = [] := by
  cases items with
  | nil => rfl
  | cons item rest => exact absurd (List.append_eq_nil_iff.1 h).1 (hne item)

/-- A row starts with its first token and stops with its last one. -/
theorem start_rangeOf_cons (token : Token) (tokens : List Token) (next : Token) :
    (rangeOf (token :: tokens) next).span.start = token.range.span.start := by
  obtain ⟨last, hlast⟩ : ∃ last, (token :: tokens).getLast? = some last :=
    ⟨_, List.getLast?_eq_some_getLast (List.cons_ne_nil _ _)⟩
  simp [rangeOf, hlast]

theorem stop_rangeOf_append (tokens : List Token) (token next : Token) :
    (rangeOf (tokens ++ [token]) next).span.stop = token.range.span.stop := by
  obtain ⟨first, hfirst⟩ : ∃ first, (tokens ++ [token]).head? = some first :=
    ⟨_, List.head?_eq_some_head (by simp)⟩
  simp [rangeOf, hfirst]

theorem of_snoc (h : Row low (front ++ [token]) high) :
    Row low (front ++ [token]) token.range.span.stop ∧ token.range.span.stop ≤ high := by
  induction front generalizing low with
  | nil =>
    cases h with
    | cons le room more => exact ⟨.cons le room (.nil (Nat.le_refl _)), more.le⟩
  | cons first front ih =>
    cases h with
    | cons le room more => exact ⟨.cons le room (ih more).1, (ih more).2⟩

/-- A row goes from where its first token starts to where its last one stops. -/
theorem tighten (h : Row low tokens high) (hne : tokens ≠ []) (next : Token) :
    low ≤ (rangeOf tokens next).span.start
      ∧ Row (rangeOf tokens next).span.start tokens (rangeOf tokens next).span.stop
      ∧ (rangeOf tokens next).span.stop ≤ high := by
  have hstart : low ≤ (rangeOf tokens next).span.start
      ∧ Row (rangeOf tokens next).span.start tokens high := by
    cases h with
    | nil => exact absurd rfl hne
    | cons le room more =>
      rw [start_rangeOf_cons]
      exact ⟨le, .cons (Nat.le_refl _) room more⟩
  obtain ⟨hle, hrow⟩ := hstart
  generalize (rangeOf tokens next).span.start = start at *
  obtain ⟨front, token, rfl⟩ := (List.eq_nil_or_concat' tokens).resolve_left hne
  rw [stop_rangeOf_append]
  exact ⟨hle, hrow.of_snoc.1, hrow.of_snoc.2⟩

theorem isNonempty_rangeOf (h : Row low tokens high) (hne : tokens ≠ []) (next : Token) :
    (rangeOf tokens next).IsNonempty := by
  obtain ⟨-, hrow, -⟩ := h.tighten hne next
  obtain ⟨token, rest, rfl⟩ := List.exists_cons_of_ne_nil hne
  obtain ⟨hle, hroom, hrest⟩ := hrow.of_cons
  have hstop := hrest.le
  unfold Range.IsNonempty
  omega

end Row

/-! ## Rows of nodes

The nodes that are made of a row of tokens. Two of them may have an offset in common if the one ends
where the other starts; then nothing may stand below the second one at the offset. -/

namespace Node

variable {offset low mid high : Nat} {node : Node} {nodes front back : List Node}

/-- A tidy node between two offsets. -/
structure Fits (offset low high : Nat) (node : Node) : Prop where
  tidy : node.Tidy offset
  low_le : low ≤ node.range.span.start
  start_le : node.range.span.start ≤ node.range.span.stop
  le_high : node.range.span.stop ≤ high

/-- Tidy nodes one behind the other between two offsets. One that contains the offset like one in
front of it is clear there. -/
structure Strung (offset low high : Nat) (nodes : List Node) : Prop where
  fits : ∀ node ∈ nodes, node.Fits offset low high
  order : nodes.Pairwise fun a b => a.range.span.stop ≤ b.range.span.start
  clear : nodes.Pairwise fun a b =>
    a.range.contains offset = true → b.range.contains offset = true → b.Clear offset

theorem contains_iff {range : Range} :
    range.contains offset = true ↔ range.span.start ≤ offset ∧ offset ≤ range.span.stop := by
  simp [Range.contains]

/-- If a tidy node is not at an offset, nothing in it is. -/
theorem Tidy.not_contains (h : node.Tidy offset) (hnot : ¬ node.range.contains offset = true) :
    ∀ level ∈ node.levels, level.2.range.contains offset = false := by
  intro level hmem
  by_contra hcontains
  exact hnot (h.within level hmem (by simpa using hcontains))

theorem clear_leaf (kind : NodeKind) (range : Range) : (leaf kind range).Clear offset :=
  fun _ hmem => absurd hmem List.not_mem_nil

/-- A node is clear at an offset behind which all of its parts start. -/
theorem Strung.clear_of_lt (h : Strung offset low high nodes) (hlt : offset < low) (kind : NodeKind)
    (range : Range) : (Node.mk kind range nodes).Clear offset := by
  intro child hchild
  have hfits := h.fits child hchild
  have hlow := hfits.low_le
  refine hfits.tidy.not_contains fun hcontains => ?_
  have := (contains_iff.1 hcontains).1
  omega

theorem Strung.nil : Strung offset low high [] := ⟨fun _ hmem => absurd hmem List.not_mem_nil, .nil, .nil⟩

theorem Strung.one (h : node.Fits offset low high) : Strung offset low high [node] :=
  ⟨by simpa using h, List.pairwise_singleton _ _, List.pairwise_singleton _ _⟩

theorem Fits.mono {low' high' : Nat} (h : node.Fits offset low high) (hlow : low' ≤ low)
    (hhigh : high ≤ high') : node.Fits offset low' high' :=
  ⟨h.tidy, Nat.le_trans hlow h.low_le, h.start_le, Nat.le_trans h.le_high hhigh⟩

theorem Strung.mono {low' high' : Nat} (h : Strung offset low high nodes) (hlow : low' ≤ low)
    (hhigh : high ≤ high') : Strung offset low' high' nodes :=
  ⟨fun node hmem => (h.fits node hmem).mono hlow hhigh, h.order, h.clear⟩

/-- Nodes behind others. At an offset that is in nodes of both the later ones must be clear. -/
theorem Strung.touching (hfront : Strung offset low mid front) (hback : Strung offset mid high back)
    (hlow : low ≤ mid) (hhigh : mid ≤ high)
    (hclear : ∀ a ∈ front, ∀ b ∈ back, a.range.span.stop = offset → b.range.span.start = offset →
      b.Clear offset) : Strung offset low high (front ++ back) := by
  have hbefore := hfront.mono (Nat.le_refl _) hhigh
  have hbehind := hback.mono hlow (Nat.le_refl _)
  refine ⟨fun node hmem => ?_, ?_, ?_⟩
  · rcases List.mem_append.1 hmem with hmem | hmem
    · exact hbefore.fits node hmem
    · exact hbehind.fits node hmem
  · refine List.pairwise_append.2 ⟨hfront.order, hback.order, fun a ha b hb => ?_⟩
    exact Nat.le_trans (hfront.fits a ha).le_high (hback.fits b hb).low_le
  · refine List.pairwise_append.2 ⟨hfront.clear, hback.clear, fun a ha b hb hina hinb => ?_⟩
    have hstop := (hfront.fits a ha).le_high
    have hstart := (hback.fits b hb).low_le
    obtain ⟨-, hina⟩ := contains_iff.1 hina
    obtain ⟨hinb, -⟩ := contains_iff.1 hinb
    exact hclear a ha b hb (by omega) (by omega)

/-- Nodes behind others with a token between them. -/
theorem Strung.apart {mid' : Nat} (hfront : Strung offset low mid front)
    (hback : Strung offset mid' high back) (hlow : low ≤ mid) (hmid : mid < mid')
    (hhigh : mid ≤ high) : Strung offset low high (front ++ back) := by
  refine hfront.touching (hback.mono (Nat.le_of_lt hmid) (Nat.le_refl _)) hlow hhigh ?_
  intro a ha b hb hstop hstart
  have := (hfront.fits a ha).le_high
  have := (hback.fits b hb).low_le
  omega

/-- A node of some tokens around the nodes of their parts. -/
theorem fits_node {tokens : List Token} (h : Row low tokens high) (hne : tokens ≠ [])
    (kind : NodeKind) (next : Token)
    (hparts : ∀ low high, Row low tokens high → Strung offset low high nodes) :
    (mk kind (rangeOf tokens next) nodes).Fits offset low high := by
  obtain ⟨hlow, hrow, hhigh⟩ := h.tighten hne next
  have hstrung := hparts _ _ hrow
  refine ⟨tidy_mk (fun node hmem => (hstrung.fits node hmem).tidy) ⟨fun node hmem hin => ?_, hstrung.clear⟩,
    hlow, hrow.le, hhigh⟩
  obtain ⟨hstart, hstop⟩ := contains_iff.1 hin
  have hfits := hstrung.fits node hmem
  exact contains_iff.2 ⟨Nat.le_trans hfits.low_le hstart, Nat.le_trans hstop hfits.le_high⟩

/-- A block of some tokens, or of none, in front of a token. -/
theorem fits_block {tokens : List Token} {next : Token} (h : Row low tokens mid)
    (hnext : mid ≤ next.range.span.start) (hnil : tokens = [] → nodes = []) (kind : NodeKind)
    (hparts : ∀ low high, Row low tokens high → Strung offset low high nodes) :
    (mk kind (rangeOf tokens next) nodes).Fits offset low next.range.span.start := by
  by_cases hne : tokens = []
  · rw [hnil hne, hne]
    exact ⟨tidy_leaf kind _, Nat.le_trans h.le hnext, Nat.le_refl _, Nat.le_refl _⟩
  · exact (fits_node h hne kind next hparts).mono (Nat.le_refl _) hnext

/-- A node of one token. -/
theorem fits_token {token : Token} (h : Row low [token] high) (kind : NodeKind) :
    (leaf kind token.range).Fits offset low high := by
  cases h with
  | cons le room more => exact ⟨tidy_leaf _ _, le, Nat.le_of_lt room, more.le⟩

end Node

/-! ## Parameters and signatures

Between the parts of a signature there are tokens which are no nodes: dots, commas and brackets. -/

theorem WrittenParameter.tokens_ne_nil (w : WrittenParameter) : w.tokens ≠ [] := by
  simp [WrittenParameter.tokens]

theorem WrittenSignature.tokens_ne_nil (w : WrittenSignature) : w.tokens ≠ [] := by
  simp [WrittenSignature.tokens]

namespace Row

open Node

variable {offset low high : Nat}

theorem fits_argument {w : WrittenArgument} (h : Row low [w.token] high) :
    w.tree.toNode.Fits offset low high := fits_token h _

theorem fits_type {w : WrittenType} (h : Row low w.tokens high) :
    (leaf .typeHint w.tree.range).Fits offset low high :=
  fits_node h (List.cons_ne_nil _ _) .typeHint {} fun _ _ _ => .nil

/-- The type of a parameter may touch its argument, which has no parts. -/
theorem fits_parameter {w : WrittenParameter} (h : Row low w.tokens high) :
    w.tree.toNode.Fits offset low high := by
  refine fits_node h w.tokens_ne_nil .parameter {} fun low high hrow => ?_
  obtain ⟨mid, hfront, hargument⟩ := hrow.of_append
  obtain ⟨start, hflow, htype⟩ := hfront.of_append
  have htypes : Strung offset start mid
      (w.tree.type.map fun type => Node.leaf .typeHint type.range).toList := by
    cases hw : w.type with
    | none => simpa [WrittenParameter.tree, hw] using Strung.nil
    | some type =>
      simp only [hw, Option.toList_some, List.flatMap_cons, List.flatMap_nil, List.append_nil] at htype
      simpa [WrittenParameter.tree, hw] using Strung.one htype.fits_type
  refine (htypes.mono hflow.le (Nat.le_refl _)).touching (.one hargument.fits_argument) hfront.le
    hargument.le fun a _ b hb _ _ => ?_
  obtain rfl := List.mem_singleton.1 hb
  exact clear_leaf _ _

/-- Parameters have commas between them. -/
theorem strung_parameters {w : WrittenParameters} (h : Row low w.tokens high) :
    Strung offset low high (w.trees.map Parameter.toNode) := by
  induction w generalizing low with
  | one parameter => exact .one h.fits_parameter
  | more parameter comma rest ih =>
    obtain ⟨mid, hparameter, hrest⟩ := h.of_append
    obtain ⟨hle, hroom, hmore⟩ := hrest.of_cons
    exact (Strung.one hparameter.fits_parameter).apart (ih hmore) hparameter.le (by omega) hrest.le

theorem fits_owner {token : Token} (h : Row low [token] high) :
    (ownerParameter token).toNode.Fits offset low high :=
  fits_node h (List.cons_ne_nil _ _) .parameter {} fun _ _ hrow => .one (fits_token hrow .identifier)

/-- An owner takes up room and has a dot behind it. -/
theorem dotted_owner {owner : Option (TokenOf .identifier × TokenOf .dot)}
    (h : Row low (owner.toList.flatMap fun (owner, dot) => [owner.1, dot.1]) high) :
    ∀ p ∈ owner.toList.map fun (owner, _) => ownerParameter owner.1,
      p.range.IsNonempty ∧ p.range.span.stop < high := by
  cases owner with
  | none => exact nofun
  | some written =>
    obtain ⟨owner, dot⟩ := written
    obtain ⟨-, hroom, hdot⟩ := h.of_cons
    obtain ⟨hle, hdots, hnone⟩ := hdot.of_cons
    have hhigh := hnone.le
    intro p hmem
    obtain rfl := List.mem_singleton.1 hmem
    exact ⟨hroom, show owner.1.range.span.stop < high by omega⟩

theorem strung_owner {owner : Option (TokenOf .identifier × TokenOf .dot)}
    (h : Row low (owner.toList.flatMap fun (owner, dot) => [owner.1, dot.1]) high) :
    Strung offset low high
      ((owner.toList.map fun (owner, _) => ownerParameter owner.1).map Parameter.toNode) := by
  cases owner with
  | none => exact .nil
  | some written =>
    obtain ⟨hle, hroom, hdot⟩ := h.of_cons
    exact .one (fits_owner (.cons hle hroom (.nil hdot.le)))

/-- The parts of a signature have brackets, dots and commas between them. -/
theorem strung_signature {w : WrittenSignature} (h : Row low w.tokens high) :
    Strung offset low high w.tree.toNode.children := by
  obtain ⟨last, hfront, hclosing⟩ := h.of_append
  obtain ⟨first, howner, hname⟩ := hfront.of_append
  obtain ⟨hle, hroom, hopening⟩ := hname.of_cons
  obtain ⟨hopens, hopened, hparameters⟩ := hopening.of_cons
  have hdotted := howner.dotted_owner
  have howners : Strung offset low first _ := howner.strung_owner
  have hidentifier : Strung offset first w.name.1.range.span.stop [(Identifier.ofToken w.name.1).toNode] :=
    .one (fits_token (.cons hle hroom (.nil (Nat.le_refl _))) .identifier)
  have hafter : Strung offset w.opening.1.range.span.stop last
      ((w.parameters.toList.flatMap (·.trees)).map Parameter.toNode) := by
    cases hw : w.parameters with
    | none => exact .nil
    | some parameters =>
      simp only [hw, Option.toList_some, List.flatMap_cons, List.flatMap_nil, List.append_nil]
        at hparameters ⊢
      exact hparameters.strung_parameters
  have hlow := howner.le
  have hlast := hparameters.le
  -- The dot keeps the owner apart from the name, and the bracket keeps both apart from the
  -- parameters.
  have hall := (howners.touching hidentifier hlow (by omega) ?_).apart hafter (by omega) (by omega) (by omega)
  · have hchildren : w.tree.toNode.children = _ := Parse.signatureNodes_eq
      (fun p hmem => (hdotted p hmem).1) (Nat.le_of_lt hroom) hall.order
    rw [hchildren]
    exact hall.mono (Nat.le_refl _) hclosing.le
  · intro a ha b hb hstop hstart
    obtain ⟨p, hp, rfl⟩ := List.mem_map.1 ha
    have hdot : p.toNode.range.span.stop < first := (hdotted p hp).2
    have := (hidentifier.fits b hb).low_le
    omega

theorem fits_signature {w : WrittenSignature} (h : Row low w.tokens high) :
    w.tree.toNode.Fits offset low high := by
  have hnode : w.tree.toNode = .mk .signature (rangeOf w.tokens) w.tree.toNode.children := rfl
  rw [hnode]
  exact fits_node h w.tokens_ne_nil .signature {} fun _ _ hrow => hrow.strung_signature

/-! ## Conditions

Each condition has AND in front of it, and a sign stands between the sides of a comparison. -/

/-- A sign stands between the sides of a comparison. -/
theorem fits_condition {w : WrittenCondition} (h : Row low w.tokens high) :
    w.tree.toNode.Fits offset low high := by
  cases w with
  | call negation signature =>
    refine fits_node h (by simp [WrittenCondition.tokens, WrittenSignature.tokens])
      .signatureCondition {} fun low high hrow => ?_
    obtain ⟨mid, hnegation, hsignature⟩ := hrow.of_append
    exact .one (hsignature.fits_signature.mono hnegation.le (Nat.le_refl _))
  | comparison left operator right =>
    refine fits_node h (by simp [WrittenCondition.tokens]) .operatorCondition {}
      fun low high hrow => ?_
    obtain ⟨mid, hleft, hoperator⟩ := hrow.of_append
    obtain ⟨hle, hroom, hright⟩ := hoperator.of_cons
    exact (Strung.one hleft.fits_parameter).apart (.one hright.fits_parameter) hleft.le (by omega)
      hoperator.le

/-- Each condition has AND in front of it. -/
theorem strung_conditions {conditions : List WrittenConjunct}
    (h : Row low (conditions.flatMap (·.tokens)) high) :
    Strung offset (low + 1) high ((conditions.map (·.tree)).map Condition.toNode) := by
  induction conditions generalizing low with
  | nil => exact .nil
  | cons conjunct rest ih =>
    obtain ⟨mid, hfirst, hrest⟩ := h.of_append
    obtain ⟨hle, hroom, hcondition⟩ := hfirst.of_cons
    have hfits : Fits offset (low + 1) mid conjunct.tree.toNode :=
      hcondition.fits_condition.mono (by omega) (Nat.le_refl _)
    have hmid := hcondition.le
    exact (Strung.one hfits).apart (ih hrest) (by omega) (Nat.lt_succ_self _) hrest.le

theorem clear_conditions {conditions : List WrittenConjunct} {next : Token}
    (h : Row low (conditions.flatMap (·.tokens)) high)
    (hstart : (rangeOf (conditions.flatMap (·.tokens)) next).span.start = offset) :
    (Node.mk .conditionBlock (rangeOf (conditions.flatMap (·.tokens)) next)
      ((conditions.map (·.tree)).map Condition.toNode)).Clear offset := by
  cases conditions with
  | nil => exact clear_leaf _ _
  | cons conjunct rest =>
    obtain ⟨-, hrow, -⟩ := h.tighten (by simp [WrittenConjunct.tokens]) next
    exact hrow.strung_conditions.clear_of_lt (by omega) _ _

end Row

/-! ## Actions

An action that calls starts with a name, unless there is NOT in front of it. So two actions without
a blank between them have an end and the start of a name at one offset. -/

/-- At an offset an action of a block ends and the next one starts, with a name. -/
def ActionBlock.TouchesAt (block : ActionBlock) (offset : Nat) : Prop :=
  ∃ before a b after, block.actions = before ++ a :: b :: after ∧ a.range.span.stop = offset
    ∧ b.range.span.start = offset ∧ ∃ signature, b.form = .call signature false

theorem Action.range_toNode (action : Action) : action.toNode.range = action.range := by
  obtain ⟨form, range⟩ := action
  cases form <;> rfl

namespace Row

open Node

variable {offset low high : Nat}

theorem fits_action {w : WrittenAction} (h : Row low w.tokens high) :
    w.tree.toNode.Fits offset low high := by
  cases w with
  | goalCompleted word semicolon =>
    exact fits_node h (List.cons_ne_nil _ _) .goalCompletedAction {} fun _ _ _ => .nil
  | call negation signature semicolon =>
    refine fits_node h (by simp [WrittenAction.tokens]) .signatureAction {} fun low high hrow => ?_
    obtain ⟨last, hfront, hsemicolon⟩ := hrow.of_append
    obtain ⟨first, hnegation, hsignature⟩ := hfront.of_append
    exact .one (hsignature.fits_signature.mono hnegation.le hsemicolon.le)

/-- Where an action ends there is nothing but its semicolon. -/
theorem clear_stop_action {w : WrittenAction} (h : Row low w.tokens high)
    (hstop : w.tree.range.span.stop = offset) : w.tree.toNode.Clear offset := by
  cases w with
  | goalCompleted word semicolon => exact clear_leaf _ _
  | call negation signature semicolon =>
    obtain ⟨-, hrow, -⟩ := h.tighten (WrittenAction.tokens_ne_nil _) {}
    obtain ⟨last, hfront, hsemicolon⟩ := hrow.of_append
    obtain ⟨first, hnegation, hsignature⟩ := hfront.of_append
    obtain ⟨hle, hroom, hnone⟩ := hsemicolon.of_cons
    have hfits : signature.tree.toNode.Fits offset first last := hsignature.fits_signature
    intro child hchild
    obtain rfl := List.mem_singleton.1 hchild
    refine hfits.tidy.not_contains fun hcontains => ?_
    have hin := (contains_iff.1 hcontains).2
    have hlast := hfits.le_high
    have hend := hnone.le
    have hstop : (rangeOf (WrittenAction.call negation signature semicolon).tokens).span.stop
      = offset := hstop
    omega

/-- Where an action starts there is nothing, if it does not start with a name. -/
theorem clear_start_action {w : WrittenAction} (h : Row low w.tokens high)
    (hstart : w.tree.range.span.start = offset) (hplain : ∀ signature, w.form ≠ .call signature false) :
    w.tree.toNode.Clear offset := by
  cases w with
  | goalCompleted word semicolon => exact clear_leaf _ _
  | call negation signature semicolon =>
    cases negation with
    | none => exact absurd rfl (hplain _)
    | some negation =>
      obtain ⟨-, hrow, -⟩ := h.tighten (WrittenAction.tokens_ne_nil _) {}
      obtain ⟨last, hfront, hsemicolon⟩ := hrow.of_append
      obtain ⟨hle, hroom, hsignature⟩ := hfront.of_cons
      have hfits : signature.tree.toNode.Fits offset negation.1.range.span.stop last :=
        hsignature.fits_signature
      intro child hchild
      obtain rfl := List.mem_singleton.1 hchild
      refine hfits.tidy.not_contains fun hcontains => ?_
      have hin := (contains_iff.1 hcontains).1
      have hfirst := hfits.low_le
      have hstart : (rangeOf (WrittenAction.call (some negation) signature semicolon).tokens).span.start
        = offset := hstart
      dsimp only at hle hroom
      omega

/-- Actions that do not touch at an offset are told apart there. -/
theorem strung_actions {actions : List WrittenAction} (next : Token)
    (hapart : ¬ (WrittenAction.block actions next).TouchesAt offset)
    (h : Row low (actions.flatMap (·.tokens)) high) :
    Strung offset low high ((actions.map (·.tree)).map Action.toNode) := by
  -- The first action may touch the second only if that is the pair asked for.
  induction actions generalizing low with
  | nil => exact .nil
  | cons action rest ih =>
    obtain ⟨mid, haction, hrest⟩ := h.of_append
    have hstrung := ih (fun ⟨before, a, b, after, hactions, htouch⟩ =>
      hapart ⟨action.tree :: before, a, b, after, congrArg (action.tree :: ·) hactions, htouch⟩) hrest
    refine (Strung.one haction.fits_action).touching hstrung haction.le hrest.le ?_
    intro a ha b hb hstop hstart
    obtain rfl := List.mem_singleton.1 ha
    rw [Action.range_toNode] at hstop
    cases rest with
    | nil => exact absurd hb List.not_mem_nil
    | cons second rest =>
      obtain ⟨last, hsecond, hthird⟩ := hrest.of_append
      rcases List.mem_cons.1 hb with rfl | hb
      · rw [Action.range_toNode] at hstart
        refine hsecond.clear_start_action hstart fun signature hform => hapart ?_
        exact ⟨[], action.tree, second.tree, rest.map (·.tree), rfl, hstop, hstart, signature, hform⟩
      · -- Those behind the second action start where it has ended.
        have hbehind := (List.pairwise_cons.1 hstrung.order).1 b hb
        have hroom : second.tree.range.span.start < second.tree.range.span.stop :=
          hsecond.isNonempty_rangeOf second.tokens_ne_nil {}
        have hfirst : action.tree.toNode.Fits offset low mid := haction.fits_action
        have hend := hfirst.le_high
        have hlow := (hstrung.fits second.tree.toNode (by simp)).low_le
        rw [Action.range_toNode] at hbehind hend hlow
        dsimp only at hbehind
        omega

end Row

/-! ## Goals

The parts of a rule and of a goal have keywords in front of them, so that only actions are left to
be looked at. -/

/-- The blocks of actions in a goal. -/
def Goal.actionBlocks (goal : Goal) : List ActionBlock :=
  goal.init :: goal.rules.map (·.actions) ++ [goal.exit]

theorem WrittenGoal.forall_actionBlocks {w : WrittenGoal} {good : ActionBlock → Prop} :
    (∀ block ∈ w.tree.actionBlocks, good block) ↔
      good (WrittenAction.block w.init w.kbSection) ∧ (∀ rule ∈ w.rules, good rule.tree.actions)
        ∧ good (WrittenAction.block w.exit w.endExitSection) := by
  simp [Goal.actionBlocks, tree, or_imp, forall_and]

namespace Row

open Node

variable {offset low high : Nat}

/-- The parts of a rule stand behind its keyword. Only the conditions can touch the head, and start
with AND if there are any. -/
theorem strung_rule {w : WrittenRule} (h : Row low w.tokens high)
    (hapart : ¬ w.tree.actions.TouchesAt offset) :
    Strung offset (low + 1) high w.tree.toNode.children := by
  obtain ⟨last, hfront, hmark⟩ := h.of_append
  obtain ⟨mid, hhead, hconditions⟩ := hfront.of_append
  obtain ⟨hle, hroom, hhead⟩ := hhead.of_cons
  obtain ⟨hmarks, hmarked, hactions⟩ := hmark.of_cons
  have hheadFits : w.head.tree.toNode.Fits offset (low + 1) mid :=
    hhead.fits_signature.mono (by omega) (Nat.le_refl _)
  have hnone (hnil : w.conditions.flatMap (·.tokens) = []) :
      (w.conditions.map (·.tree)).map Condition.toNode = [] := by
    rw [eq_nil_of_flatMap (fun _ => List.cons_ne_nil _ _) hnil]
    rfl
  have hconditionsFit : w.tree.conditions.toNode.Fits offset mid w.mark.1.range.span.start :=
    fits_block hconditions hmarks hnone .conditionBlock
      fun low high hrow => hrow.strung_conditions.mono (Nat.le_succ _) (Nat.le_refl _)
  have hactionsFit : w.tree.actions.toNode.Fits offset w.mark.1.range.span.stop high :=
    fits_node hactions (by simp [WrittenAction.tokens_ne_nil]) .actionBlock {}
      fun low high hrow => hrow.strung_actions {} hapart
  have hmid := hhead.le
  have hlast := hconditions.le
  have hbehind := hactions.le
  -- Where head and conditions touch, the first keyword of the conditions starts, which is no node;
  -- the mark keeps the actions apart.
  have hfirst : Strung offset (low + 1) w.mark.1.range.span.start
      [w.head.tree.toNode, w.tree.conditions.toNode] := by
    refine (Strung.one hheadFits).touching (.one hconditionsFit) (by omega)
      (Nat.le_trans hconditions.le hmarks) fun a _ b hb _ hstart => ?_
    obtain rfl := List.mem_singleton.1 hb
    exact hconditions.clear_conditions hstart
  exact hfirst.apart (.one hactionsFit) (by omega) hmarked (by omega)

theorem fits_rule {w : WrittenRule} (h : Row low w.tokens high)
    (hapart : ¬ w.tree.actions.TouchesAt offset) : w.tree.toNode.Fits offset low high :=
  fits_node h (List.cons_ne_nil _ _) .rule {} fun _ _ hrow =>
    (hrow.strung_rule hapart).mono (Nat.le_succ _) (Nat.le_refl _)

/-- Where a rule starts there is nothing but its keyword. -/
theorem clear_rule {w : WrittenRule} (h : Row low w.tokens high)
    (hapart : ¬ w.tree.actions.TouchesAt offset) (hstart : w.tree.range.span.start = offset) :
    w.tree.toNode.Clear offset := by
  obtain ⟨-, hrow, -⟩ := h.tighten (List.cons_ne_nil _ _) {}
  exact (hrow.strung_rule hapart).clear_of_lt (Nat.lt_succ_of_le (Nat.le_of_eq hstart.symm)) .rule _

/-- Rules may touch. -/
theorem strung_rules {rules : List WrittenRule} (h : Row low (rules.flatMap (·.tokens)) high)
    (hapart : ∀ rule ∈ rules, ¬ rule.tree.actions.TouchesAt offset) :
    Strung offset low high ((rules.map (·.tree)).map Rule.toNode) := by
  induction rules generalizing low with
  | nil => exact .nil
  | cons rule rest ih =>
    obtain ⟨mid, hrule, hrest⟩ := h.of_append
    have hothers : ∀ other ∈ rest, ¬ other.tree.actions.TouchesAt offset :=
      fun other hmem => hapart other (List.mem_cons_of_mem _ hmem)
    refine (Strung.one (hrule.fits_rule (hapart rule List.mem_cons_self))).touching (ih hrest hothers)
      hrule.le hrest.le fun a _ b hb _ hstart => ?_
    rw [List.map_map] at hb
    obtain ⟨other, hother, rfl⟩ := List.mem_map.1 hb
    obtain ⟨_, _, hrow⟩ := hrest.of_mem_flatMap hother
    exact hrow.clear_rule (hothers other hother) hstart

theorem fits_actionBlock {actions : List WrittenAction} {next : Token}
    (h : Row low (actions.flatMap (·.tokens)) high) (hnext : high ≤ next.range.span.start)
    (hapart : ¬ (WrittenAction.block actions next).TouchesAt offset) :
    (WrittenAction.block actions next).toNode.Fits offset low next.range.span.start :=
  have hnone (hnil : actions.flatMap (·.tokens) = []) :
      (actions.map (·.tree)).map Action.toNode = [] := by
    rw [eq_nil_of_flatMap WrittenAction.tokens_ne_nil hnil]
    rfl
  fits_block h hnext hnone .actionBlock fun _ _ hrow => hrow.strung_actions next hapart

/-- **A goal is tidy at an offset** at which no two actions touch. -/
theorem fits_goal {w : WrittenGoal} (h : Row low w.tokens high)
    (hapart : ∀ block ∈ w.tree.actionBlocks, ¬ block.TouchesAt offset) :
    w.tree.toNode.Fits offset low high := by
  obtain ⟨hinits, hrules, hexits⟩ := WrittenGoal.forall_actionBlocks.1 hapart
  refine fits_node h (by simp [WrittenGoal.tokens]) .storyGoal {} fun low high hrow => ?_
  obtain ⟨footer, hfront, hfooter⟩ := hrow.of_append
  obtain ⟨exit, hfront, hexit⟩ := hfront.of_append
  obtain ⟨rules, hfront, hknown⟩ := hfront.of_append
  obtain ⟨init, hheader, hinit⟩ := hfront.of_append
  obtain ⟨hle, hroom, hinit⟩ := hinit.of_cons
  obtain ⟨hkb, hkbRoom, hknown⟩ := hknown.of_cons
  obtain ⟨hexitLe, hexitRoom, hexit⟩ := hexit.of_cons
  obtain ⟨hend, hendRoom, hfooter⟩ := hfooter.of_cons
  -- The keywords of the sections keep the three apart.
  have hinitFits := hinit.fits_actionBlock hkb hinits
  have hexitFits := hexit.fits_actionBlock hend hexits
  have hheader := hheader.le
  have hbefore := hinitFits.start_le
  have hlow := hinitFits.low_le
  have hhigh := hinitFits.le_high
  have hrulesEnd := hknown.le
  have hinner := hexit.le
  have hlast := hfooter.le
  have hfirst := (Strung.one (hinitFits.mono (show low ≤ _ by omega) (Nat.le_refl _))).apart
    (hknown.strung_rules hrules) (by omega) hkbRoom (by omega)
  exact hfirst.apart (.one (hexitFits.mono (Nat.le_refl _) (by omega))) (by omega) (by omega) (by omega)

/-- The tokens of a text are a row. -/
theorem of_pairwise {tokens : List Token} {last : Token}
    (hroom : ∀ token ∈ tokens, token.range.span.start < token.range.span.stop)
    (hlow : ∀ token ∈ tokens ++ [last], low ≤ token.range.span.start)
    (horder : (tokens ++ [last]).Pairwise fun a b => a.range.span.stop ≤ b.range.span.start) :
    Row low tokens last.range.span.start := by
  induction tokens generalizing low with
  | nil => exact .nil (hlow last List.mem_cons_self)
  | cons token rest ih =>
    obtain ⟨hfirst, hrest⟩ := List.pairwise_cons.1 horder
    exact .cons (hlow token List.mem_cons_self) (hroom token List.mem_cons_self)
      (ih (fun other hmem => hroom other (List.mem_cons_of_mem _ hmem)) hfirst hrest)

theorem of_text (text : String) : Row 0 (TokenList.ofText text).tokens
    (TokenList.ofText text).last.range.span.start :=
  have hordered := TokenList.ordered_ofText text
  of_pairwise hordered.room hordered.start_le hordered.pairwise

end Row

/-! ## Actions that touch

Where actions touch, the walk goes into the first one, and the call of the second is a level deeper.
So the condition is needed, too. -/

namespace Node

variable {offset : Nat} {text : String} {node child : Node}

/-- What stands in front of a part that goes on to both sides of an offset is not there. -/
theorem IsPlaced.not_contains {front back : List Node} (h : node.IsPlaced text)
    (hchildren : node.children = front ++ child :: back) (hstart : child.range.span.start < offset)
    (hstop : offset ≤ child.range.span.stop) :
    ∀ other ∈ front, other.range.contains offset = false := by
  obtain ⟨kind, range, children⟩ := node
  obtain rfl : children = front ++ child :: back := hchildren
  obtain ⟨-, order, -, -⟩ := h
  rw [List.map_append, List.map_cons] at order
  intro other hmem
  have hprecedes := (List.pairwise_append.1 order).2.2 other.range (List.mem_map_of_mem hmem)
    child.range List.mem_cons_self
  refine Bool.eq_false_iff.2 fun hcontains => ?_
  obtain ⟨hin, hout⟩ := contains_iff.1 hcontains
  have hleft := hprecedes.1
  by_cases hnonempty : other.range.IsNonempty
  · have := hprecedes.2 hnonempty (Nat.lt_of_lt_of_le hstart hstop)
    omega
  · unfold Range.IsNonempty at hnonempty
    omega

theorem IsPlaced.within_of_mem (h : node.IsPlaced text) (hmem : child ∈ node.children)
    (hnonempty : child.range.IsNonempty) : child.range.Within node.range := by
  obtain ⟨-, -, within, -⟩ := h
  exact within child hmem hnonempty

/-- A part that goes on to both sides of an offset and has a deeper node there than the walk finds
gives such a node to what it is part of. -/
theorem IsPlaced.not_isDeepestAt (h : node.IsPlaced text) (hmem : child ∈ node.children)
    (hstart : child.range.span.start < offset) (hstop : offset ≤ child.range.span.stop)
    (hchild : ¬ child.IsDeepestAt offset) : ¬ node.IsDeepestAt offset
      ∧ node.range.span.start < offset ∧ offset ≤ node.range.span.stop := by
  obtain ⟨front, back, hchildren⟩ := List.append_of_mem hmem
  have hdepth := depthAt_of_first hchildren (h.not_contains hchildren hstart hstop)
    (contains_iff.2 ⟨Nat.le_of_lt hstart, hstop⟩)
  have hwithin := h.within_of_mem hmem (Nat.lt_of_lt_of_le hstart hstop)
  refine ⟨fun hdeepest => hchild fun level hlevel hcontains => ?_,
    Nat.lt_of_le_of_lt hwithin.1 hstart, Nat.le_trans hstop hwithin.2⟩
  have := hdeepest _ (mem_levels_of_child hmem hlevel) hcontains
  dsimp only at this
  omega

/-- A walk ends where nothing stands below. -/
theorem Clear.depthAt_eq_zero (h : node.Clear offset) : node.depthAt offset = 0 := by
  obtain ⟨kind, range, children⟩ := node
  rw [depthAt_mk]
  rcases walk_cases offset children with ⟨-, -, hdepth⟩ | ⟨front, child, back, rfl, -, hchild, -, -⟩
  · exact hdepth
  · rw [h child (List.mem_append_right _ List.mem_cons_self) _ (root_mem_levels child)] at hchild
    cases hchild

end Node

namespace Row

open Node

variable {offset low high : Nat} {text : String}

/-- The signature of a call without NOT starts where the call does. -/
theorem contains_signature {signature : WrittenSignature} {semicolon : TokenOf .semicolon}
    (h : Row low (WrittenAction.call none signature semicolon).tokens high)
    (hstart : (WrittenAction.call none signature semicolon).tree.range.span.start = offset) :
    signature.tree.toNode.range.contains offset = true := by
  obtain ⟨last, hsignature, -⟩ := h.of_append
  have hfits : signature.tree.toNode.Fits offset low last := hsignature.fits_signature
  have hopens : signature.tree.toNode.range.span.start = offset := by
    obtain ⟨token, rest, htokens⟩ := List.exists_cons_of_ne_nil signature.tokens_ne_nil
    rw [← hstart]
    show (rangeOf signature.tokens).span.start
      = (rangeOf (signature.tokens ++ [semicolon.1])).span.start
    rw [htokens, List.cons_append, start_rangeOf_cons, start_rangeOf_cons]
  exact contains_iff.2 ⟨Nat.le_of_eq hopens, hopens ▸ hfits.start_le⟩

/-- Where actions touch the walk stays with the first one, and the name of the second is deeper. -/
theorem not_isDeepestAt_block {actions : List WrittenAction} {next : Token}
    (h : Row low (actions.flatMap (·.tokens)) high)
    (hplaced : (WrittenAction.block actions next).toNode.IsPlaced text)
    (htouch : (WrittenAction.block actions next).TouchesAt offset) :
    ¬ (WrittenAction.block actions next).toNode.IsDeepestAt offset
      ∧ (WrittenAction.block actions next).toNode.range.span.start < offset
      ∧ offset ≤ (WrittenAction.block actions next).toNode.range.span.stop := by
  obtain ⟨before, a, b, after, hactions, hstop, hstart, signature, hform⟩ := htouch
  obtain ⟨front, touching, rfl, rfl, htouching⟩ := List.map_eq_append_iff.1 hactions
  obtain ⟨first, rest, rfl, rfl, hrest⟩ := List.map_eq_cons_iff.1 htouching
  obtain ⟨second, back, rfl, rfl, rfl⟩ := List.map_eq_cons_iff.1 hrest
  obtain ⟨_, _, hfirst⟩ := h.of_mem_flatMap (show first ∈ _ by simp)
  obtain ⟨_, _, hsecond⟩ := h.of_mem_flatMap (show second ∈ _ by simp)
  have hchildren : (WrittenAction.block (front ++ first :: second :: back) next).toNode.children
      = (front.map (·.tree)).map Action.toNode ++ first.tree.toNode
        :: second.tree.toNode :: (back.map (·.tree)).map Action.toNode := by
    simp [WrittenAction.block, ActionBlock.toNode, Node.children]
  have hroom : first.tree.range.span.start < first.tree.range.span.stop :=
    hfirst.isNonempty_rangeOf first.tokens_ne_nil {}
  rw [hstop, ← Action.range_toNode] at hroom
  rw [← Action.range_toNode] at hstop
  have hstop := Nat.le_of_eq hstop.symm
  have hdepth := depthAt_of_first hchildren (hplaced.not_contains hchildren hroom hstop)
    (contains_iff.2 ⟨Nat.le_of_lt hroom, hstop⟩)
  rw [(hfirst.clear_stop_action (by rw [← Action.range_toNode]; omega)).depthAt_eq_zero] at hdepth
  have hmem : first.tree.toNode ∈ _ := hchildren ▸ List.mem_append_right _ List.mem_cons_self
  have hwithin := hplaced.within_of_mem hmem (Nat.lt_of_lt_of_le hroom hstop)
  refine ⟨fun hdeepest => ?_, Nat.lt_of_le_of_lt hwithin.1 hroom, Nat.le_trans hstop hwithin.2⟩
  -- The second action is a call, whose signature is two levels below the block.
  cases second with
  | goalCompleted word semicolon => cases hform
  | call negation written semicolon =>
    cases negation with
    | some negation => cases hform
    | none =>
      have hcall : (WrittenAction.call none written semicolon).tree.toNode ∈ _ :=
        hchildren ▸ List.mem_append_right _ (List.mem_cons_of_mem _ List.mem_cons_self)
      have hlevel := mem_levels_of_child hcall
        (mem_levels_of_child List.mem_cons_self (root_mem_levels written.tree.toNode))
      have := hdeepest _ hlevel (hsecond.contains_signature hstart)
      dsimp only at this
      omega

end Row

/-- **In a goal that follows the grammar the walk ends at a deepest node**, except between two actions
that touch of which the second starts with a name. -/
theorem WrittenGoal.isDeepestAt_iff {text : String} {w : WrittenGoal} {offset : Nat}
    (h : (TokenList.ofText text).tokens = w.tokens)
    (hcontains : (parseGoal text).tree.toNode.range.contains offset = true) :
    (parseGoal text).tree.toNode.IsDeepestAt offset
      ↔ ∀ block ∈ (parseGoal text).tree.actionBlocks, ¬ block.TouchesAt offset := by
  have hrow := Row.of_text text
  have hplaced := isPlaced_goal text
  have htree : (parseGoal text).tree = w.tree := by
    obtain ⟨after, hrun, -⟩ := goal_run_written w h
    rw [parseGoal, parseGoalTokens_of_run hrun]
  rw [h] at hrow
  rw [htree] at hcontains hplaced ⊢
  refine ⟨fun hdeepest => ?_, fun hapart => (hrow.fits_goal hapart).tidy.deepest hcontains⟩
  have hsections {actions : List WrittenAction} {next : Token}
      (hpart : actions.flatMap (·.tokens) <:+: w.tokens)
      (hmem : (WrittenAction.block actions next).toNode ∈ w.tree.toNode.children) :
      ¬ (WrittenAction.block actions next).TouchesAt offset := by
    intro htouch
    obtain ⟨_, _, hactions⟩ := hrow.of_part hpart
    obtain ⟨hblock, hstart, hstop⟩ := hactions.not_isDeepestAt_block (hplaced.part hmem) htouch
    exact (hplaced.not_isDeepestAt hmem hstart hstop hblock).1 hdeepest
  -- Actions that touch stand in a section or in a rule. In a rule the block is one level further
  -- down.
  refine WrittenGoal.forall_actionBlocks.2 ⟨?_, fun rule hrule htouch => ?_, ?_⟩
  · exact hsections ⟨w.header.flatMap (·.tokens) ++ [w.initSection.1], _, by
      simp only [tokens, List.append_assoc, List.cons_append, List.nil_append]
      rfl⟩ List.mem_cons_self
  · have hmem : rule.tree.toNode ∈ w.tree.toNode.children :=
      List.mem_cons_of_mem _ (List.mem_append_left _
        (List.mem_map_of_mem (List.mem_map_of_mem hrule)))
    have hactions : rule.tree.actions.toNode ∈ rule.tree.toNode.children := by
      simp [Rule.toNode, Node.children]
    have hrules : w.rules.flatMap (·.tokens) <:+: w.tokens :=
      ⟨w.front, w.back, by rw [tokens_eq, List.append_assoc]⟩
    obtain ⟨_, _, hrules⟩ := hrow.of_part hrules
    obtain ⟨_, _, hrule⟩ := hrules.of_mem_flatMap hrule
    obtain ⟨_, -, hmark⟩ := hrule.of_append
    obtain ⟨-, -, hlast⟩ := hmark.of_cons
    obtain ⟨hblock, hstart, hstop⟩ :=
      hlast.not_isDeepestAt_block ((hplaced.part hmem).part hactions) htouch
    obtain ⟨hrule, hstart, hstop⟩ := (hplaced.part hmem).not_isDeepestAt hactions hstart hstop hblock
    exact (hplaced.not_isDeepestAt hmem hstart hstop hrule).1 hdeepest
  · exact hsections ⟨w.front ++ w.rules.flatMap (·.tokens) ++ [w.exitSection.1], _, by
      simp only [tokens, front, List.append_assoc, List.cons_append, List.nil_append]
      rfl⟩ (by simp [Goal.toNode, Node.children, tree])

end StoryCheck.Syntax
