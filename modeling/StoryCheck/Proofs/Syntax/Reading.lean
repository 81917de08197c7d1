import StoryCheck.Proofs.Syntax.Advance
import StoryCheck.Proofs.Syntax.WrittenGoal

/-!
# Reading without a report

How to go through a rule of a grammar, step by step, where nothing is reported.

* **`Cursor.Takes`** — some tokens stand between two places.
* **`Parse.Reads`** — a step reads something up to a place. `Reads.bind` takes the first step off a
  rule, and `Advances.clean` says that nothing was reported before if nothing is in the end.
* **`Parse.Reads.many`**, **`Parse.reads_many`** — what is read over and over was written one behind
  the other, and the other way round.
-/

namespace StoryCheck.Syntax

/-! ## Ranges

The range of what was read goes from its first token to its last. -/

/-- The range of some tokens is theirs; the token given beside them is used where there are none. -/
theorem rangeOf_of_ne_nil {tokens : List Token} (h : tokens ≠ []) (a b : Token) :
    rangeOf tokens a = rangeOf tokens b := by
  cases tokens with
  | nil => exact absurd rfl h
  | cons first rest => simp [rangeOf, List.getLast?_cons]

/-! ## Places

To *take* tokens is to pass them with nothing reported up to the end. Reports are never withdrawn,
so this is known of all the way if it is known of its end, which is why the proofs go backwards. -/

namespace Cursor

variable {s s₁ s₂ s' : Cursor} {token : Token} {tokens more : List Token} {found : List Diagnostic}

/-- Between two places stand some tokens, and nothing is reported up to there. -/
structure Takes (s : Cursor) (tokens : List Token) (s' : Cursor) : Prop where
  passes : s.Passes tokens [] s'
  clean : s.reports = []

/-- Without a report of its own, a stretch that ends without reports starts without any. -/
theorem Passes.clean (h : s.Passes tokens [] s') (hclean : s'.reports = []) : s.reports = [] := by
  rw [← hclean, h.reports, List.append_nil]

/-- Passing tokens up to a place without reports is taking them. -/
theorem Passes.takes (h : s.Passes tokens [] s') (hclean : s'.reports = []) : s.Takes tokens s' :=
  ⟨h, h.clean hclean⟩

/-- There is nothing reported at the end of what is taken. -/
theorem Takes.clean_end (h : s.Takes tokens s') : s'.reports = [] := by
  rw [h.passes.reports, h.clean, List.append_nil]

/-- The end of the text is the same wherever one stands. -/
theorem Takes.ends (h : s.Takes tokens s') (hend : s'.ending.kind = .endOfFile) :
    s.ending.kind = .endOfFile := h.passes.ending ▸ hend

/-- Taking no token. -/
theorem Takes.refl (hclean : s.reports = []) : s.Takes [] s := ⟨.refl s, hclean⟩

/-- Taking some tokens and then others. -/
theorem Takes.trans (h₁ : s.Takes tokens s₁) (h₂ : s₁.Takes more s₂) :
    s.Takes (tokens ++ more) s₂ :=
  ⟨h₁.passes.trans h₂.passes, h₁.clean⟩

/-- Taking one token and then others. -/
theorem Takes.cons (h₁ : s.Takes [token] s₁) (h₂ : s₁.Takes more s₂) : s.Takes (token :: more) s₂ :=
  h₁.trans h₂

/-- The tokens tell where they end. -/
theorem Takes.eq (h₁ : s.Takes tokens s₁) (h₂ : s.Takes tokens s₂) : s₁ = s₂ := by
  have hahead : s₁.ahead = s₂.ahead :=
    List.append_cancel_left (h₁.passes.ahead.symm.trans h₂.passes.ahead)
  have hending := h₁.passes.ending.trans h₂.passes.ending.symm
  have hlast := h₁.passes.last.trans h₂.passes.last.symm
  have hreports := h₁.clean_end.trans h₂.clean_end.symm
  cases s₁
  cases s₂
  simp_all

/-- To take nothing is to stay. -/
theorem takes_nil_iff : s.Takes [] s' ↔ s' = s ∧ s.reports = [] :=
  ⟨fun h => ⟨h.eq (.refl h.clean), h.clean⟩, fun ⟨heq, hclean⟩ => by rw [heq]; exact .refl hclean⟩

/-- Tokens are taken one part after the other. -/
theorem takes_append_iff :
    s.Takes (tokens ++ more) s' ↔ ∃ s₁, s.Takes tokens s₁ ∧ s₁.Takes more s' := by
  refine ⟨fun h => ?_, fun ⟨s₁, h₁, h₂⟩ => h₁.trans h₂⟩
  have hfirst : s.ahead = tokens ++ (more ++ s'.ahead) := by rw [h.passes.ahead, List.append_assoc]
  have h₁ : s.Takes tokens _ := ⟨passes_skip hfirst, h.clean⟩
  have h₂ : Takes _ more _ := ⟨passes_skip rfl, h₁.clean_end⟩
  exact ⟨_, h₁, (h₁.trans h₂).eq h ▸ h₂⟩

/-- The first of some tokens is taken first. -/
theorem takes_cons_iff :
    s.Takes (token :: more) s' ↔ ∃ s₁, s.Takes [token] s₁ ∧ s₁.Takes more s' :=
  show s.Takes ([token] ++ more) s' ↔ _ from takes_append_iff

/-- The next token is the first that is taken. -/
theorem Takes.peek (h : s.Takes (token :: more) s') : s.peek = token := by
  simp [Cursor.peek, h.passes.ahead]

/-- The kind that comes next is that of the first token that is taken. -/
theorem Takes.kindAt_zero (h : s.Takes (token :: more) s') : s.kindAt 0 = token.kind := by
  simp [kindAt, h.passes.ahead]

/-- The kind of the next token, at the end of the text as well. -/
theorem kind_peek (hend : s.ending.kind = .endOfFile) : s.peek.kind = s.kindAt 0 := by
  cases hahead : s.ahead with
  | nil => simp [Cursor.peek, kindAt, hahead, hend]
  | cons token rest => simp [Cursor.peek, kindAt, hahead]

/-- Behind the next token stands what is next when it is taken. -/
theorem Passes.kindAt_one (h : s.Passes [token] found s₁) : s.kindAt 1 = s₁.kindAt 0 := by
  simp [kindAt, h.ahead]

/-- The range of what was read is that of its tokens. -/
theorem Takes.rangeTo (h : s.Takes tokens s') : s.rangeTo s' = rangeOf tokens s'.peek := by
  unfold Cursor.rangeTo rangeOf
  cases tokens with
  | nil =>
    obtain ⟨rfl, -⟩ := takes_nil_iff.1 h
    simp
  | cons token tokens =>
    have hlength : s'.ahead.length < s.ahead.length := by
      rw [h.passes.ahead, List.length_append, List.length_cons]
      omega
    have hlast := h.passes.last
    rw [List.getLast?_cons] at hlast ⊢
    simp [hlength, h.peek, hlast]

/-- The range of a stretch is that of the tokens on it, if there are some. -/
theorem Takes.rangeTo_of_ne_nil (h : s.Takes tokens s') (hne : tokens ≠ []) :
    s.rangeTo s' = rangeOf tokens := by
  rw [h.rangeTo]
  exact rangeOf_of_ne_nil hne _ _

end Cursor

/-! ## Steps

`Reads p s a s'` says that the step `p` goes from `s` to `s'` with the value `a` and without a
report. A `do` block is taken apart from the front by `Reads.bind`, and put together from the back
by `Reads.andThen`. -/

namespace Parse

open Cursor

variable {α β ω : Type} {p : Parse α} {f : α → Parse β} {a : α} {b : β} {s s₁ s' : Cursor}
  {kind : TokenKind} {kinds stops stop : KindSet} {what : String}

/-- A step reads something up to a place, and nothing is reported. -/
structure Reads (p : Parse α) (s : Cursor) (a : α) (s' : Cursor) : Prop where
  run : p s = (a, s')
  clean : s'.reports = []

/-- A step that ends without reports starts without any. -/
theorem Advances.clean (hp : Advances p) (h : Reads p s a s') : s.reports = [] := by
  have hleads := hp s
  rw [h.run] at hleads
  exact hleads.clean h.clean

/-- The end of the text is the same at all places. -/
theorem Advances.ends (hp : Advances p) (h : Reads p s a s') (hend : s'.ending.kind = .endOfFile) :
    s.ending.kind = .endOfFile := by
  obtain ⟨_, _, hpasses⟩ := hp s
  rw [h.run] at hpasses
  exact hpasses.ending ▸ hend

/-- One step after the other. -/
theorem Reads.bind (h : Reads (p >>= f) s b s') : ∃ a s₁, p s = (a, s₁) ∧ Reads (f a) s₁ b s' :=
  ⟨_, _, rfl, h.run, h.clean⟩

/-- A first step that is known is taken off. -/
theorem Reads.after (hrun : p s = (a, s₁)) (h : Reads (p >>= f) s b s') : Reads (f a) s₁ b s' := by
  obtain ⟨_, _, hrun', h⟩ := h.bind
  obtain ⟨rfl, rfl⟩ := Prod.mk.inj (hrun.symm.trans hrun')
  exact h

/-- A first step that is known is put in front. -/
theorem Reads.andThen (hrun : p s = (a, s₁)) (h : Reads (f a) s₁ b s') : Reads (p >>= f) s b s' :=
  ⟨by rw [bind_apply, hrun]; exact h.run, h.clean⟩

/-- Giving back a value stays where it is. -/
theorem Reads.of_pure {x : α} (h : Reads (pure a : Parse α) s x s') : x = a ∧ s' = s := by
  obtain ⟨rfl, rfl⟩ := Prod.mk.inj h.run
  exact ⟨rfl, rfl⟩

/-- A value is given back where nothing has been reported. -/
theorem reads_pure (hclean : s.reports = []) : Reads (pure a : Parse α) s a s := ⟨rfl, hclean⟩

/-- The value of a step that is changed afterwards. -/
theorem Reads.of_map {g : α → β} (h : Reads (g <$> p) s b s') : ∃ a, b = g a ∧ Reads p s a s' :=
  ⟨(p s).1, (Prod.mk.inj h.run).1.symm, Prod.ext rfl (Prod.mk.inj h.run).2, h.clean⟩

/-- The same in the other direction. -/
theorem reads_map {g : α → β} (h : Reads p s a s') : Reads (g <$> p) s (g a) s' :=
  ⟨by rw [map_apply, h.run], h.clean⟩

/-- A step that returns its range as well. -/
theorem Reads.ranged {part : α × Range} (h : Reads (ranged p) s part s') :
    Reads p s part.1 s' ∧ part.2 = s.rangeTo s' := by
  have hrun := h.run
  rw [ranged_apply] at hrun
  obtain ⟨rfl, rfl⟩ := Prod.mk.inj hrun
  exact ⟨⟨rfl, h.clean⟩, rfl⟩

/-- What is built from a part and its range. -/
theorem Reads.of_ranged {k : α × Range → Parse β} {g : α → Range → β}
    (h : Reads (Parse.ranged p >>= k) s b s') (hk : ∀ a range, k (a, range) = pure (g a range)) :
    ∃ a, Reads p s a s' ∧ b = g a (s.rangeTo s') := by
  obtain ⟨⟨a, range⟩, s₁, hrun, h⟩ := h.bind
  rw [hk] at h
  obtain ⟨rfl, rfl⟩ := h.of_pure
  obtain ⟨hread, rfl⟩ := Reads.ranged ⟨hrun, h.clean⟩
  exact ⟨a, hread, rfl⟩

/-- The same in the other direction. -/
theorem reads_ranged (h : Reads p s a s') : Reads (ranged p) s (a, s.rangeTo s') s' :=
  ⟨by rw [ranged_apply, h.run], h.clean⟩

/-! ### Looking and taking

What the small steps of the reader do on a text that goes on with a given token. On the way back,
from what was read without a report to the token that was there, they are inverted. -/

/-- Asking for the cursor gives it back. -/
theorem get_apply (s : Cursor) : (get : Parse Cursor) s = (s, s) := rfl

/-- Asking for the kind of a token ahead moves nothing. -/
theorem kindAt_apply (k : Nat) (s : Cursor) : kindAt k s = (s.kindAt k, s) := rfl

/-- Asking whether the next token is of a kind moves nothing. -/
theorem isAt_apply (kind : TokenKind) (s : Cursor) : isAt kind s = (s.kindAt 0 == kind, s) := rfl

/-- Asking whether it is of one of several kinds moves nothing. -/
theorem isAtAny_apply (kinds : KindSet) (s : Cursor) :
    isAtAny kinds s = (kinds.contains (s.kindAt 0), s) := rfl

/-- Asking whether to stop moves nothing; the end of the text is always a place to stop at. -/
theorem isAtStop_apply (stops : KindSet) (s : Cursor) :
    isAtStop stops s = (s.kindAt 0 == .endOfFile || stops.contains (s.kindAt 0), s) := rfl

/-- No report has been made at the next token where none has been made at all. -/
theorem isReportedHere_apply (hclean : s.reports = []) : isReportedHere s = (false, s) := by
  show (s.reports.getLast?.any _, s) = _
  rw [hclean]
  rfl

/-- The next token is taken. -/
theorem take_of_takes {token : Token} (h : s.Takes [token] s₁) : take s = (token, s₁) := by
  have htaken : s.Takes [token] _ := ⟨passes_token h.passes.ahead, h.clean⟩
  rw [take_apply, h.passes.ahead, ← htaken.eq h]
  rfl

/-- A token of the right kind is eaten. -/
theorem eat_of_takes {token : TokenOf kind} (h : s.Takes [token.1] s₁) :
    eat kind s = (some token.1, s₁) := by
  have hat : (s.kindAt 0 == kind) = true := by simp [h.kindAt_zero, token.2]
  rw [eat, bind_apply, isAt_apply]
  simp only [hat, if_true, bind_apply, take_of_takes h]
  rfl

/-- A token of another kind is left alone. -/
theorem eat_of_ne (h : s.kindAt 0 ≠ kind) : eat kind s = (none, s) := by
  rw [eat, bind_apply, isAt_apply]
  simp only [beq_eq_false_iff_ne.2 h]
  rfl

/-- A token that is expected and there is taken as it is. -/
theorem expect_of_takes {token : TokenOf kind} (h : s.Takes [token.1] s₁) :
    expect kind what s = (some token.1, s₁) := by
  rw [expect, bind_apply, eat_of_takes h]
  rfl

/-- A token of the kind was taken, or there is none. -/
theorem Reads.eat {found : Option Token} (hkind : kind ≠ .endOfFile)
    (h : Reads (eat kind) s found s₁) :
    (∃ token : TokenOf kind, found = some token.1 ∧ s.Takes [token.1] s₁)
      ∨ found = none ∧ s₁ = s ∧ s.kindAt 0 ≠ kind := by
  rcases eat_cases hkind s with ⟨token, rest, hahead, htoken, heat⟩ | ⟨hne, heat⟩
  · obtain ⟨rfl, rfl⟩ := Prod.mk.inj (heat.symm.trans h.run)
    exact .inl ⟨⟨token, htoken⟩, rfl, (passes_token hahead).takes h.clean⟩
  · obtain ⟨rfl, rfl⟩ := Prod.mk.inj (heat.symm.trans h.run)
    exact .inr ⟨rfl, rfl, hne⟩

/-- A token of the kind was taken. -/
theorem Reads.expect {found : Option Token} (hkind : kind ≠ .endOfFile)
    (h : Reads (expect kind what) s found s₁) :
    ∃ token : TokenOf kind, found = some token.1 ∧ s.Takes [token.1] s₁ := by
  rcases eat_cases hkind s with ⟨token, rest, hahead, htoken, heat⟩ | ⟨hne, heat⟩
  · have hrun := h.run
    rw [Parse.expect, bind_apply, heat] at hrun
    obtain ⟨rfl, rfl⟩ := Prod.mk.inj hrun
    exact ⟨⟨token, htoken⟩, rfl, (passes_token hahead).takes h.clean⟩
  · have hrun := h.run
    rw [Parse.expect, bind_apply, heat] at hrun
    obtain ⟨-, rfl⟩ := Prod.mk.inj hrun
    exact absurd h.clean (List.append_ne_nil_of_right_ne_nil _ (by simp))

/-- The token that stands there was taken. -/
theorem Reads.take {token : Token} (hne : s.kindAt 0 ≠ .endOfFile) (h : Reads take s token s₁) :
    token = s.peek ∧ s.Takes [token] s₁ := by
  have hrun := h.run
  cases hahead : s.ahead with
  | nil => exact absurd (by simp [Cursor.kindAt, hahead]) hne
  | cons first rest =>
    rw [take_apply, hahead] at hrun
    obtain ⟨rfl, rfl⟩ := Prod.mk.inj hrun
    exact ⟨by simp [Cursor.peek, hahead], (passes_token hahead).takes h.clean⟩

/-- A step whose value is thrown away read some value. -/
theorem Reads.discard {x : Unit} (h : Reads (discard p) s x s') : ∃ a, Reads p s a s' :=
  ⟨(p s).1, Prod.ext rfl (Prod.mk.inj h.run).2, h.clean⟩

/-- What a step does with its value thrown away. -/
theorem discard_run (h : p s = (a, s₁)) : Functor.discard p s = ((), s₁) := by
  rw [discard_apply, h]

/-- Something is reported at the start, so it does not matter what comes behind. -/
theorem not_reads_report {d : Diagnostic} {f : Unit → Parse β} (hf : Advances (f ())) :
    ¬ Reads (report d >>= f) s b s' := by
  intro h
  obtain ⟨_, s₁, hrun, h⟩ := h.bind
  obtain ⟨-, rfl⟩ := Prod.mk.inj hrun
  exact List.append_ne_nil_of_right_ne_nil _ (by simp) (hf.clean h)

/-- Nothing is read over an unexpected token. -/
theorem not_reads_unexpected {expected : String} {f : Unit → Parse β} (hf : Advances (f ())) :
    ¬ Reads (reportUnexpected expected >>= f) s b s' :=
  fun h => not_reads_report (s := s) hf ⟨h.run, h.clean⟩

/-- Passing over a token reads nothing. -/
theorem not_reads_passOver {expected : String} {found : Option (List α)} :
    ¬ Reads (do
      reportUnexpected expected
      discard take
      skipUntil stops kinds
      return some ([] : List α)) s found s' :=
  not_reads_unexpected (.bind advances_take.discard fun _ => .bind advances_skipUntil fun _ => .pure)

/-- Nothing is read over something that is missing. -/
theorem not_reads_missing {f : Unit → Parse β} (hf : Advances (f ())) :
    ¬ Reads (reportMissing what >>= f) s b s' :=
  fun h => not_reads_report (s := s) hf ⟨h.run, h.clean⟩

/-! ### Repetition

A loop reads one thing after the other until its step declines. That every step takes a token is
what ends it. -/

section Repetition

variable {step : Parse (Option (List α))} (tree : ω → α) (trees : ω → List α)
  (tokens : ω → List Token) (Good : α → Prop) (Follow : Cursor → Prop) {found : List α} {bound : Nat}

/-- What was read over and over was written one behind the other. The end is where the step
declines, unless no token is left. -/
theorem Reads.repeatUpTo (h : Reads (repeatUpTo step bound) s found s') (hstep : Advances step)
    (hend : s'.ending.kind = .endOfFile) (hgood : ∀ a ∈ found, Good a)
    (hbound : s.ahead.length ≤ bound)
    (hwritten : ∀ {s found s₁}, s₁.ending.kind = .endOfFile → Reads step s found s₁ →
      (∀ a ∈ found.getD [], Good a) → found = none ∧ s₁ = s
        ∨ ∃ w, found = some (trees w) ∧ tokens w ≠ [] ∧ s.Takes (tokens w) s₁) :
    ∃ written : List ω, found = written.flatMap trees ∧ s.Takes (written.flatMap tokens) s'
      ∧ (s'.ahead = [] ∨ Reads step s' none s') := by
  -- Each turn takes a token at least, so that the bound goes down with the tokens that are left.
  induction bound generalizing s found with
  | zero =>
    obtain ⟨rfl, rfl⟩ := h.of_pure
    exact ⟨[], rfl, .refl h.clean, .inl (List.length_eq_zero_iff.1 (Nat.le_zero.1 hbound))⟩
  | succ bound ih =>
    obtain ⟨first, s₁, hfirst, h⟩ := h.bind
    cases first with
    | none =>
      obtain ⟨rfl, rfl⟩ := h.of_pure
      obtain ⟨-, rfl⟩ | ⟨w, hnone, -⟩ := hwritten hend ⟨hfirst, h.clean⟩ nofun
      · exact ⟨[], rfl, .refl h.clean, .inr ⟨hfirst, h.clean⟩⟩
      · cases hnone
    | some first =>
      obtain ⟨rest, s₂, hrest, h⟩ := h.bind
      obtain ⟨rfl, rfl⟩ := h.of_pure
      have hrest : Reads _ s₁ rest s' := ⟨hrest, h.clean⟩
      have hmore := Advances.repeatUpTo hstep bound
      have hfirst : Reads step s (some first) s₁ := ⟨hfirst, hmore.clean hrest⟩
      obtain ⟨hnone, -⟩ | ⟨w, hsome, hne, htakes⟩ :=
        hwritten (hmore.ends hrest hend) hfirst fun a ha => hgood a (List.mem_append_left _ ha)
      · cases hnone
      obtain rfl := Option.some.inj hsome
      -- A token was taken, so that the bound suffices for the rest.
      have hshort : s₁.ahead.length ≤ bound := by
        have hlength := congrArg List.length htakes.passes.ahead
        have hpos := List.length_pos_iff.2 hne
        rw [List.length_append] at hlength
        omega
      obtain ⟨written, rfl, hrest, hstop⟩ :=
        ih hrest (fun a ha => hgood a (List.mem_append_right _ ha)) hshort
      exact ⟨w :: written, rfl, htakes.trans hrest, hstop⟩

/-- A loop that read something read what was written, one behind the other, and stopped where its
step declines or where the tokens end. -/
theorem Reads.many_flatMap (h : Reads (many step) s found s') (hstep : Advances step)
    (hend : s'.ending.kind = .endOfFile) (hgood : ∀ a ∈ found, Good a)
    (hwritten : ∀ {s found s₁}, s₁.ending.kind = .endOfFile → Reads step s found s₁ →
      (∀ a ∈ found.getD [], Good a) → found = none ∧ s₁ = s
        ∨ ∃ w, found = some (trees w) ∧ tokens w ≠ [] ∧ s.Takes (tokens w) s₁) :
    ∃ written : List ω, found = written.flatMap trees ∧ s.Takes (written.flatMap tokens) s'
      ∧ (s'.ahead = [] ∨ Reads step s' none s') :=
  have hrun : Reads (Parse.repeatUpTo step s.ahead.length) s found s' := ⟨h.run, h.clean⟩
  hrun.repeatUpTo trees tokens Good hstep hend hgood (Nat.le_refl _) hwritten

/-- The case that each step gives one thing. -/
theorem Reads.many (h : Reads (many step) s found s') (hstep : Advances step)
    (hend : s'.ending.kind = .endOfFile) (hgood : ∀ a ∈ found, Good a)
    (hwritten : ∀ {s found s₁}, s₁.ending.kind = .endOfFile → Reads step s found s₁ →
      (∀ a ∈ found.getD [], Good a) → found = none ∧ s₁ = s
        ∨ ∃ w, found = some [tree w] ∧ tokens w ≠ [] ∧ s.Takes (tokens w) s₁) :
    ∃ written : List ω, found = written.map tree ∧ s.Takes (written.flatMap tokens) s'
      ∧ (s'.ahead = [] ∨ Reads step s' none s') := by
  obtain ⟨written, rfl, htakes, hstop⟩ :=
    h.many_flatMap (fun w => [tree w]) tokens Good hstep hend hgood hwritten
  exact ⟨written, List.map_eq_flatMap.symm, htakes, hstop⟩

/-- What is written one behind the other is read over and over. -/
theorem reads_repeatUpTo (written : List ω) (h : s.Takes (written.flatMap tokens) s')
    (hlast : Follow s') (hdeclines : Reads step s' none s') (hbound : s.ahead.length ≤ bound)
    (hne : ∀ w, tokens w ≠ []) (hfollow : ∀ {w s s₁}, s.Takes (tokens w) s₁ → Follow s)
    (hstep : ∀ {w s s₁}, s.Takes (tokens w) s₁ → Follow s₁ → Reads step s (some [tree w]) s₁) :
    Reads (Parse.repeatUpTo step bound) s (written.map tree) s' := by
  -- A turn needs to know what follows, as a list of parameters does with its comma.
  induction bound generalizing s written with
  | zero =>
    cases written with
    | nil =>
      obtain ⟨rfl, hclean⟩ := takes_nil_iff.1 h
      exact reads_pure hclean
    | cons w written =>
      have hpos := List.length_pos_iff.2 (hne w)
      have hlength := congrArg List.length h.passes.ahead
      rw [List.flatMap_cons, List.length_append, List.length_append] at hlength
      omega
  | succ bound ih =>
    cases written with
    | nil =>
      obtain ⟨rfl, hclean⟩ := takes_nil_iff.1 h
      exact .andThen hdeclines.run (reads_pure hclean)
    | cons w written =>
      obtain ⟨s₁, hfirst, hrest⟩ := takes_append_iff.1 h
      -- What follows is the next thing that was written, or what follows them all.
      have hnext : Follow s₁ := by
        cases written with
        | nil =>
          obtain ⟨rfl, -⟩ := takes_nil_iff.1 hrest
          exact hlast
        | cons next written =>
          obtain ⟨s₂, hnext, -⟩ := takes_append_iff.1 hrest
          exact hfollow hnext
      have hshort : s₁.ahead.length ≤ bound := by
        have hpos := List.length_pos_iff.2 (hne w)
        have hlength := congrArg List.length hfirst.passes.ahead
        rw [List.length_append] at hlength
        omega
      have hmore := ih written hrest hshort
      exact .andThen (hstep hfirst hnext).run (.andThen hmore.run (reads_pure hmore.clean))

/-- What is written one behind the other is read by a loop, if it is followed by something the step
declines. -/
theorem reads_many (written : List ω) (h : s.Takes (written.flatMap tokens) s')
    (hlast : Follow s') (hdeclines : Reads step s' none s')
    (hne : ∀ w, tokens w ≠ []) (hfollow : ∀ {w s s₁}, s.Takes (tokens w) s₁ → Follow s)
    (hstep : ∀ {w s s₁}, s.Takes (tokens w) s₁ → Follow s₁ → Reads step s (some [tree w]) s₁) :
    Reads (Parse.many step) s (written.map tree) s' :=
  .andThen (get_apply s)
    (reads_repeatUpTo tree tokens Follow written h hlast hdeclines (Nat.le_refl _) hne hfollow hstep)

end Repetition

end Parse
end StoryCheck.Syntax
