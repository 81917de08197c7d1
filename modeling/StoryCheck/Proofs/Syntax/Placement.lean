import StoryCheck.Proofs.Syntax.HeaderReports
import StoryCheck.Proofs.Syntax.NodePlaces
import StoryCheck.Proofs.Syntax.Recovery

/-!
# Placing nodes

Reading goes through a text from front to back, and so do the nodes that it makes. What one step
makes stands between the place where it starts and the place where it ends, so the nodes of several
steps stand one behind the other, and a node around them has them all in it.

* **`Cursor.Lays`** — some nodes stand one behind the other between two places.
* **`Cursor.Lays.wrap`** — a node around them stands there in their place.
* **`Parse.Lays`** — the nodes that stand behind a step, given those in front of it, with a rule
  for each way to put steps together.
-/

namespace StoryCheck.Syntax

/-! ## Places

A step of the reader takes tokens and makes nodes of some. The nodes are put between the tokens that
were there before and those that are left, so that what several steps make stands in order. -/

namespace Cursor

variable {text : String} {s s₁ s₂ s' : Cursor} {token : Token} {taken more rest : List Token}
  {node : Node} {nodes others : List Node}

/-- The tokens that are left stand in the text, in order and up to its end. -/
structure IsIn (s : Cursor) (text : String) : Prop where
  inOrder : s.InOrder
  places : ∀ token ∈ s.ahead ++ [s.ending], token.range.IsIn text
  ending : s.ending.kind = .endOfFile

theorem isIn_ofText (text : String) : (ofTokens (.ofText text)).IsIn text :=
  ⟨inOrder_ofText text, TokenList.isIn_ofText text, (TokenList.kind_ofText text).2⟩

/-- Between two places some tokens are taken and some nodes are made of them. The nodes stand in
the text, one behind the other, and where they cover something, up to one of the tokens. -/
structure Carries (text : String) (s : Cursor) (taken : List Token) (nodes : List Node)
    (s' : Cursor) : Prop where
  ahead : s.ahead = taken ++ s'.ahead
  ending : s'.ending = s.ending
  last : s'.last = taken.getLast?.getD s.last
  placed : ∀ node ∈ nodes, node.IsPlaced text
  order : nodes.Pairwise fun a b => a.range.span.stop ≤ b.range.span.start
  between : ∀ node ∈ nodes, s.peek.range.span.start ≤ node.range.span.start
    ∧ node.range.span.stop ≤ s'.peek.range.span.start
  reach : ∀ node ∈ nodes, node.range.IsNonempty →
    ∃ token ∈ taken, node.range.span.stop ≤ token.range.span.stop

/-- Some nodes stand one behind the other between two places. -/
def Lays (text : String) (s : Cursor) (nodes : List Node) (s' : Cursor) : Prop :=
  ∃ taken, s.Carries text taken nodes s'

theorem LeadsTo.lays (h : s.LeadsTo s') : s.Lays text [] s' := by
  obtain ⟨taken, _, hpasses⟩ := h
  exact ⟨taken, hpasses.ahead, hpasses.ending, hpasses.last, by simp, .nil, by simp, by simp⟩

theorem Lays.refl (s : Cursor) : s.Lays text [] s := (LeadsTo.refl s).lays

theorem IsIn.of_ahead (hs : s.IsIn text) (hahead : s.ahead = taken ++ s'.ahead)
    (hending : s'.ending = s.ending) : s'.IsIn text := by
  have hall : s.ahead ++ [s.ending] = taken ++ (s'.ahead ++ [s'.ending]) := by
    rw [hahead, hending, List.append_assoc]
  refine ⟨⟨fun token hmem => hs.inOrder.room token ?_, ?_⟩, fun token hmem => hs.places token ?_, ?_⟩
  · rw [hahead]
    exact List.mem_append_right taken hmem
  · exact (List.pairwise_append.1 (hall ▸ hs.inOrder.pairwise)).2.1
  · rw [hall]
    exact List.mem_append_right taken hmem
  · rw [hending]
    exact hs.ending

theorem Lays.isIn (h : s.Lays text nodes s') (hs : s.IsIn text) : s'.IsIn text := by
  obtain ⟨taken, h⟩ := h
  exact hs.of_ahead h.ahead h.ending

/-- What is taken stops where the next token has not started. -/
theorem IsIn.stop_le_peek (hs : s.IsIn text) (hahead : s.ahead = taken ++ s'.ahead)
    (hending : s'.ending = s.ending) (hmem : token ∈ taken) :
    token.range.span.stop ≤ s'.peek.range.span.start := by
  have hpairwise := hs.inOrder.pairwise
  rw [hahead, ← hending, List.append_assoc] at hpairwise
  exact (List.pairwise_append.1 hpairwise).2.2 token hmem _ s'.peek_mem

theorem Carries.start_peek_le (h : s.Carries text taken nodes s') (hs : s.IsIn text) :
    s.peek.range.span.start ≤ s'.peek.range.span.start := by
  refine hs.inOrder.start_peek_le ?_
  rw [h.ahead, ← h.ending, List.append_assoc]
  exact List.mem_append_right taken s'.peek_mem

/-- Nodes of one part of the way stand in front of those of the next part. -/
theorem Lays.trans (hs : s.IsIn text) (h₁ : s.Lays text nodes s₁) (h₂ : s₁.Lays text others s₂) :
    s.Lays text (nodes ++ others) s₂ := by
  obtain ⟨taken, h₁⟩ := h₁
  obtain ⟨more, h₂⟩ := h₂
  -- The nodes of the first step end where the second starts, at the latest.
  have hs₁ : s₁.IsIn text := hs.of_ahead h₁.ahead h₁.ending
  have hfirst := h₁.start_peek_le hs
  have hsecond := h₂.start_peek_le hs₁
  refine ⟨taken ++ more, ?_, h₂.ending.trans h₁.ending, ?_, ?_, ?_, ?_, ?_⟩
  · rw [h₁.ahead, h₂.ahead, List.append_assoc]
  · rw [h₂.last, h₁.last, List.getLast?_append]
    cases more.getLast? <;> rfl
  · intro node hmem
    rcases List.mem_append.1 hmem with hmem | hmem
    · exact h₁.placed node hmem
    · exact h₂.placed node hmem
  · refine List.pairwise_append.2 ⟨h₁.order, h₂.order, fun a ha b hb => ?_⟩
    exact Nat.le_trans (h₁.between a ha).2 (h₂.between b hb).1
  · intro node hmem
    rcases List.mem_append.1 hmem with hmem | hmem
    · have hnode := h₁.between node hmem
      exact ⟨hnode.1, by omega⟩
    · have hnode := h₂.between node hmem
      exact ⟨by omega, hnode.2⟩
  · intro node hmem hnonempty
    rcases List.mem_append.1 hmem with hmem | hmem
    · obtain ⟨token, htoken, hstop⟩ := h₁.reach node hmem hnonempty
      exact ⟨token, List.mem_append_left more htoken, hstop⟩
    · obtain ⟨token, htoken, hstop⟩ := h₂.reach node hmem hnonempty
      exact ⟨token, List.mem_append_right taken htoken, hstop⟩

/-- The range between two places: it covers nothing, or goes from the first token taken to the
last. -/
theorem Carries.rangeTo_cases (h : s.Carries text taken nodes s') :
    taken = [] ∧ s.rangeTo s' = Range.empty s'.peek.range.span.start s'.peek.range.first
      ∨ ∃ front token, taken = front ++ [token] ∧ s.rangeTo s' =
          ⟨⟨s.peek.range.span.start, token.range.span.stop⟩, s.peek.range.first,
            token.range.last⟩ := by
  rcases List.eq_nil_or_concat' taken with rfl | ⟨front, token, rfl⟩
  · exact .inl ⟨rfl, if_neg (by simp [h.ahead])⟩
  · have hlast : s'.last = token := by simpa using h.last
    have hshort : s'.ahead.length < s.ahead.length := by
      simp only [h.ahead, List.length_append, List.length_singleton]
      omega
    exact .inr ⟨front, token, rfl, hlast ▸ if_pos hshort⟩

/-- The range between two places stands in the text. -/
theorem Carries.isIn_rangeTo (h : s.Carries text taken nodes s') (hs : s.IsIn text) :
    (s.rangeTo s').IsIn text := by
  have hs' := hs.of_ahead h.ahead h.ending
  rcases h.rangeTo_cases with ⟨-, hrange⟩ | ⟨front, token, rfl, hrange⟩
  · exact hrange ▸ (hs'.places _ s'.peek_mem).atStart
  · have htoken : token ∈ s.ahead := by simp [h.ahead]
    have hmem : token ∈ s.ahead ++ [s.ending] := List.mem_append_left _ htoken
    rw [hrange]
    refine (hs.places _ s.peek_mem).hull (hs.places token hmem) ?_
    exact Nat.le_trans (hs.inOrder.start_peek_le hmem) (Nat.le_of_lt (hs.inOrder.room token htoken))

/-- Tokens that are taken cover something. -/
theorem LeadsTo.isNonempty_rangeTo (h : s.LeadsTo s') (hs : s.IsIn text)
    (hshort : s'.ahead.length < s.ahead.length) : (s.rangeTo s').IsNonempty := by
  have hlays : s.Lays text [] s' := h.lays
  obtain ⟨taken, h⟩ := hlays
  rcases h.rangeTo_cases with ⟨rfl, -⟩ | ⟨front, token, rfl, hrange⟩
  · simp [h.ahead] at hshort
  · have htoken : token ∈ s.ahead := by simp [h.ahead]
    rw [hrange]
    exact Nat.lt_of_le_of_lt (hs.inOrder.start_peek_le (List.mem_append_left _ htoken))
      (hs.inOrder.room token htoken)

/-- The range between two places begins and ends there. -/
theorem Carries.rangeTo_between (h : s.Carries text taken nodes s') (hs : s.IsIn text) :
    s.peek.range.span.start ≤ (s.rangeTo s').span.start
      ∧ (s.rangeTo s').span.stop ≤ s'.peek.range.span.start := by
  rcases h.rangeTo_cases with ⟨-, hrange⟩ | ⟨front, token, rfl, hrange⟩
  · exact hrange ▸ ⟨h.start_peek_le hs, Nat.le_refl _⟩
  · exact hrange ▸ ⟨Nat.le_refl _, hs.stop_le_peek h.ahead h.ending (by simp)⟩

/-- What covers something between two places is covered by the range between them. -/
theorem Carries.within_rangeTo (h : s.Carries text taken nodes s') (hs : s.IsIn text)
    (hmem : node ∈ nodes) (hnonempty : node.range.IsNonempty) :
    node.range.Within (s.rangeTo s') := by
  obtain ⟨other, hother, hstop⟩ := h.reach node hmem hnonempty
  rcases h.rangeTo_cases with ⟨rfl, -⟩ | ⟨front, token, rfl, hrange⟩
  · cases hother
  · rw [hrange]
    refine ⟨(h.between node hmem).1, Nat.le_trans hstop ?_⟩
    show other.range.span.stop ≤ token.range.span.stop
    -- The token that the node reaches to is the last one, or in front of it.
    rcases List.mem_append.1 hother with hother | hother
    · have hpairwise := hs.inOrder.pairwise
      rw [h.ahead, List.append_assoc, List.append_assoc] at hpairwise
      have hbefore := (List.pairwise_append.1 hpairwise).2.2 other hother token (by simp)
      have hroom := hs.inOrder.room token (by simp [h.ahead])
      omega
    · rw [List.mem_singleton.1 hother]

/-- A node around others takes their place. -/
theorem Lays.wrap (kind : NodeKind) (hs : s.IsIn text) (h : s.Lays text nodes s') :
    s.Lays text [.mk kind (s.rangeTo s') nodes] s' := by
  obtain ⟨taken, h⟩ := h
  -- A part that covers something ends where a token does that was taken, and so within the range.
  have hplaced : (Node.mk kind (s.rangeTo s') nodes).IsPlaced text := by
    refine .mk (h.isIn_rangeTo hs) ?_ (fun child => h.within_rangeTo hs) h.placed
    refine List.pairwise_map.2 (h.order.imp_of_mem fun {a b} ha _ hle => ⟨?_, fun _ _ => hle⟩)
    exact Nat.le_trans (h.placed a ha).range_isIn.start_le_stop hle
  refine ⟨taken, h.ahead, h.ending, h.last, by simpa using hplaced, List.pairwise_singleton _ _,
    by simpa [Node.range] using h.rangeTo_between hs, ?_⟩
  -- The new node ends at the last token, unless it covers nothing.
  intro node hmem hnonempty
  obtain rfl := List.mem_singleton.1 hmem
  change (s.rangeTo s').IsNonempty at hnonempty
  show ∃ token ∈ taken, (s.rangeTo s').span.stop ≤ token.range.span.stop
  rcases h.rangeTo_cases with ⟨-, hrange⟩ | ⟨front, token, rfl, hrange⟩
  · rw [hrange] at hnonempty
    exact absurd hnonempty (Nat.lt_irrefl _)
  · exact ⟨token, by simp, hrange ▸ Nat.le_refl _⟩

theorem rangeTo_token (hahead : s.ahead = token :: rest) :
    s.rangeTo { s with ahead := rest, last := token } = token.range := by
  have hpeek : s.peek = token := by simp [peek, hahead]
  rw [rangeTo, if_pos (by simp [hahead]), hpeek]

/-- A token that is taken is a node. -/
theorem lays_token (kind : NodeKind) (hs : s.IsIn text) (hahead : s.ahead = token :: rest) :
    s.Lays text [.leaf kind token.range] { s with ahead := rest, last := token } := by
  rw [← rangeTo_token hahead]
  exact Lays.wrap kind hs (LeadsTo.lays ⟨_, _, passes_token hahead⟩)

end Cursor

/-! ## Steps

How the operations of the reader keep this. With these lemmas the places of a production are found
by going through its text. -/

namespace Parse

open Cursor

variable {α β : Type} {p : Parse α} {f : α → Parse β} {text : String} {before : List Node}
  {part : α → List Node} {nodes : β → List Node} {s : Cursor} {token : Token} {rest : List Token}

/-- A step that is taken where some nodes stand already, and leaves others in their place. -/
def Lays (text : String) (before : List Node) (p : Parse α) (nodes : α → List Node) : Prop :=
  ∀ s₀ s : Cursor, s₀.IsIn text → s₀.Lays text before s → s₀.Lays text (nodes (p s).1) (p s).2

namespace Lays

/-- What a step lays alone it lays behind other nodes. -/
theorem behind (part : α → List Node)
    (h : ∀ s : Cursor, s.IsIn text → s.Lays text (part (p s).1) (p s).2) :
    Lays text before p fun a => before ++ part a :=
  fun _ s hs hbefore => hbefore.trans hs (h s (hbefore.isIn hs))

/-- A step for itself. -/
theorem alone (h : Lays text [] p part) (hs : s.IsIn text) : s.Lays text (part (p s).1) (p s).2 :=
  h s s hs (.refl s)

theorem pure {b : β} (h : nodes b = before) : Lays text before (Pure.pure b : Parse β) nodes :=
  fun _ _ _ hbefore => h ▸ hbefore

/-- What stands already stands there in order. -/
theorem pure_of {b : β} (h : (∀ node ∈ before, node.IsPlaced text) →
    (before.Pairwise fun a b => a.range.span.stop ≤ b.range.span.start) → nodes b = before) :
    Lays text before (Pure.pure b : Parse β) nodes := by
  rintro s₀ s hs ⟨taken, hbefore⟩
  exact pure (h hbefore.placed hbefore.order) s₀ s hs ⟨taken, hbefore⟩

/-- A step that lays nothing. -/
theorem skip (hp : Advances p) (hf : ∀ a, Lays text before (f a) nodes) :
    Lays text before (p >>= f) nodes := by
  intro s₀ s hs hbefore
  have hskipped := hbefore.trans hs (hp s).lays
  rw [List.append_nil] at hskipped
  exact hf _ s₀ _ hs hskipped

/-- A report lays nothing, wherever it is made. -/
theorem report {d : Diagnostic} {f : Unit → Parse β} (hf : ∀ a, Lays text before (f a) nodes) :
    Lays text before (report d >>= f) nodes := by
  rintro s₀ s hs ⟨taken, hbefore⟩
  have hreported : s₀.Carries text taken before (Parse.report d s).2 :=
    ⟨hbefore.ahead, hbefore.ending, hbefore.last, hbefore.placed, hbefore.order, hbefore.between,
      hbefore.reach⟩
  exact hf _ s₀ _ hs ⟨taken, hreported⟩

/-- A step that lays its own nodes, and others that lay more behind them. -/
theorem bind (hp : Lays text [] p part) (hf : ∀ a, Lays text (before ++ part a) (f a) nodes) :
    Lays text before (p >>= f) nodes :=
  fun s₀ s hs hbefore => hf _ s₀ _ hs (behind part (fun _ => hp.alone) s₀ s hs hbefore)

theorem ite {c : Prop} [Decidable c] {p q : Parse β} (hp : Lays text before p nodes)
    (hq : Lays text before q nodes) : Lays text before (if c then p else q) nodes := by
  split
  · exact hp
  · exact hq

/-- A node around what a step lays. -/
theorem node {k : α × Range → Parse β} (kind : α → NodeKind) (part : α → List Node)
    (build : α → Range → β) (hp : Lays text [] p part)
    (hk : ∀ a range, k (a, range) = Pure.pure (build a range))
    (hnode : Gives p fun a => ∀ range, nodes (build a range) = [.mk (kind a) range (part a)]) :
    Lays text [] (ranged p >>= k) nodes := by
  refine behind nodes fun s hs => ?_
  rw [bind_apply, ranged_apply, hk, pure_apply]
  dsimp only
  rw [hnode]
  exact (hp.alone hs).wrap _ hs

/-- A node of a step that lays nothing. -/
theorem leaf {k : α × Range → Parse β} (kind : NodeKind) (build : α → Range → β)
    (hp : Advances p) (hk : ∀ a range, k (a, range) = Pure.pure (build a range))
    (hnode : ∀ a range, nodes (build a range) = [.leaf kind range]) :
    Lays text [] (ranged p >>= k) nodes :=
  node (fun _ => kind) (fun _ => []) build (behind (fun _ => []) fun s _ => (hp s).lays) hk
    fun _ _ => hnode _ _

/-- Steps one after the other lay their nodes one behind the other. -/
theorem many {step : Parse (Option (List α))} {parts : List α → List Node} (hnil : parts [] = [])
    (happend : ∀ found more, parts (found ++ more) = parts found ++ parts more)
    (hstep : Lays text [] step fun found => parts (found.getD [])) :
    Lays text [] (many step) parts := by
  have hall : ∀ bound, Lays text [] (repeatUpTo step bound) parts := by
    intro bound
    induction bound with
    | zero => exact pure hnil
    | succ bound ih =>
      refine bind hstep fun found => ?_
      cases found with
      | none => exact pure rfl
      | some found => exact bind ih fun more => pure (happend found more)
  exact skip advances_get fun s => hall _

end Lays

/-- A token that is taken is a node. -/
theorem lays_take (kind : NodeKind) (hs : s.IsIn text) (hahead : s.ahead = token :: rest) :
    s.Lays text [.leaf kind token.range] (take s).2 := by
  rw [take_apply, hahead]
  exact lays_token kind hs hahead

theorem lays_missingRange {kind : NodeKind} :
    Lays text [] missingRange fun range => [.leaf kind range] :=
  .behind (fun range => [.leaf kind range]) fun s hs => (Cursor.Lays.refl s).wrap kind hs

/-- What a run of steps gives is given by one of them at a place in the text. -/
theorem exists_of_mem_many {step : Parse (Option (List α))} {a : α} (hstep : Advances step)
    (hs : s.IsIn text) (hmem : a ∈ (many step s).1) :
    ∃ t : Cursor, t.IsIn text ∧ a ∈ (step t).1.getD [] := by
  have hall : ∀ bound (s : Cursor), s.IsIn text → a ∈ (repeatUpTo step bound s).1 →
      ∃ t : Cursor, t.IsIn text ∧ a ∈ (step t).1.getD [] := by
    intro bound
    induction bound with
    | zero => exact fun _ _ hmem => absurd hmem List.not_mem_nil
    | succ bound ih =>
      intro s hs hmem
      rw [repeatUpTo, bind_apply] at hmem
      cases hfound : (step s).1 with
      | none =>
        rw [hfound] at hmem
        exact absurd hmem List.not_mem_nil
      | some found =>
        rw [hfound] at hmem
        rcases List.mem_append.1 hmem with hmem | hmem
        · exact ⟨s, hs, by rwa [hfound]⟩
        · exact ih _ ((hstep s).lays.isIn hs) hmem
  exact hall _ s hs hmem

end Parse
end StoryCheck.Syntax
