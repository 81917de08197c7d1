import StoryCheck.Proofs.Syntax.Reading

/-!
# Reading signatures

Where nothing is reported, what a rule of the grammar takes is what the grammar says, and what the
grammar says is taken without a report. Each rule has two lemmas for that: what was read was
written (`Reads.signature`), and what is written is read (`reads_signature`). The first ask for an
end of the text that looks like one, since a token that is only looked at may be that.
-/

namespace StoryCheck.Syntax

/-! ## Arguments

An argument is one token, and its kind says which term it stands for. Only an integer can be of a
right kind and still be no argument: its digits may be too many for sixty-four bits. -/

namespace WrittenArgument

/-- A token that has a term is an argument, if its integer fits. -/
theorem exists_of_term {token : Token} {term : Term} (hterm : termOfToken? token = some term)
    (hfits : token.kind = .integer → Decimal.int64? token.value.toList ≠ none) :
    ∃ w : WrittenArgument, w.token = token ∧ w.term = term := by
  unfold termOfToken? at hterm
  split at hterm
  next hkind => exact ⟨.name ⟨token, hkind⟩, rfl, Option.some.inj hterm⟩
  next hkind => exact ⟨.guid ⟨token, hkind⟩, rfl, Option.some.inj hterm⟩
  next hkind =>
    obtain ⟨value, hvalue⟩ := Option.ne_none_iff_exists'.1 (hfits hkind)
    rw [hvalue] at hterm
    exact ⟨.integer ⟨token, hkind⟩ value hvalue, rfl, Option.some.inj hterm⟩
  next hkind => exact ⟨.real ⟨token, hkind⟩, rfl, Option.some.inj hterm⟩
  next hkind => exact ⟨.string ⟨token, hkind⟩, rfl, Option.some.inj hterm⟩
  next => cases hterm

/-- The token of a written argument gives back the term it was written for. -/
theorem termOfToken?_token (w : WrittenArgument) : termOfToken? w.token = some w.term := by
  cases w with
  | integer word value reads =>
    simp [termOfToken?, token, term, word.2, reads]
  | _ word => simp [termOfToken?, token, term, word.2]

/-- An integer that was written as an argument is one that can be represented, so the check of its
size passes. -/
theorem fits (w : WrittenArgument) :
    ¬ (decide (w.token.kind = .integer) && (Decimal.int64? w.token.value.toList).isNone) = true := by
  cases w with
  | integer word value reads => simp [token, reads]
  | _ word => simp [token, word.2]

/-- The kinds of token that an argument may be. -/
theorem kind_mem (w : WrittenArgument) :
    w.token.kind ∈ [.identifier, .guid, .integer, .real, .string] := by
  cases w with
  | integer word => simp [token, word.2]
  | _ word => simp [token, word.2]

end WrittenArgument

/-- A parameter starts like one, and if that is a name it is the whole parameter. -/
theorem WrittenParameter.exists_cons (w : WrittenParameter) :
    ∃ first rest, w.tokens = first :: rest ∧ first.kind ∈ parameterStart
      ∧ (first.kind = .identifier → rest = []) := by
  obtain ⟨_ | flow, _ | type, argument⟩ := w
  · refine ⟨_, _, rfl, ?_, fun _ => rfl⟩
    have hkind := argument.kind_mem
    simp only [List.mem_cons, List.not_mem_nil, or_false] at hkind
    rcases hkind with hkind | hkind | hkind | hkind | hkind <;> rw [hkind] <;> decide
  · exact ⟨_, _, rfl, by simp [type.opening.2, parameterStart], by simp [type.opening.2]⟩
  · exact ⟨_, _, rfl, by simp [flow.token.2, parameterStart], by simp [flow.token.2]⟩
  · exact ⟨_, _, rfl, by simp [flow.token.2, parameterStart], by simp [flow.token.2]⟩

/-- A list of parameters starts with something that a parameter may start with. With this the loop
over the list is known to enter its body. -/
theorem WrittenParameters.exists_cons (w : WrittenParameters) :
    ∃ first rest, w.tokens = first :: rest ∧ first.kind ∈ parameterStart := by
  cases w with
  | one parameter =>
    obtain ⟨first, rest, htokens, hkind, -⟩ := parameter.exists_cons
    exact ⟨first, rest, htokens, hkind⟩
  | more parameter comma more =>
    obtain ⟨first, rest, htokens, hkind, -⟩ := parameter.exists_cons
    exact ⟨first, rest ++ comma.1 :: more.tokens, by rw [tokens, htokens, List.cons_append], hkind⟩

/-- A signature starts with a name and a dot or bracket behind it. -/
theorem WrittenSignature.exists_cons (w : WrittenSignature) :
    ∃ first second rest, w.tokens = first :: second :: rest ∧ first.kind = .identifier
      ∧ second.kind ∈ [TokenKind.lParen, .dot] := by
  obtain ⟨_ | ⟨owner, dot⟩, name, opening, parameters, closing⟩ := w
  · exact ⟨_, _, _, rfl, name.2, by simp [opening.2]⟩
  · exact ⟨_, _, _, rfl, owner.2, by simp [dot.2]⟩

namespace Parse

open Cursor

variable {s s₁ s' : Cursor} {kind : TokenKind} {kinds stops stop : KindSet}

/-! ## Parameters

A parameter is a flow marker that may be missing, a type that may be missing, and an argument.
Whether a part is there is decided by one token, so the two directions need to know what that token
is not: the opening bracket of a type is no marker, and the token of an argument is neither. -/

/-- What was read as an argument was one. -/
theorem Reads.argument {a : Argument} (hend : s'.ending.kind = .endOfFile)
    (h : Reads argument s a s') : ∃ w : WrittenArgument, a = w.tree ∧ s.Takes [w.token] s' := by
  have hread := h
  have h := h.after (peek_apply s)
  cases hterm : termOfToken? s.peek with
  | none =>
    simp only [hterm] at h
    exact absurd h (not_reads_unexpected (.bind advances_missingRange fun _ => .pure))
  | some term =>
    simp only [hterm] at h
    have hnext : s.kindAt 0 ≠ .endOfFile := by
      intro hkind
      rw [← kind_peek (advances_argument.ends hread hend)] at hkind
      simp [termOfToken?, hkind] at hterm
    split at h
    · exact absurd h (not_reads_report (.bind advances_take.discard fun _ => .pure))
    next hfits =>
      -- The end of the text stands for a missing argument, and that is reported.
      obtain ⟨_, s₁, htake, h⟩ := h.bind
      obtain ⟨rfl, rfl⟩ := h.of_pure
      obtain ⟨token, htoken⟩ := Reads.discard ⟨htake, h.clean⟩
      obtain ⟨rfl, htakes⟩ := htoken.take hnext
      obtain ⟨w, htoken, rfl⟩ := WrittenArgument.exists_of_term hterm fun hkind => by
        simpa [hkind] using hfits
      exact ⟨w, by rw [WrittenArgument.tree, htoken], htoken ▸ htakes⟩

/-- A written argument is read. -/
theorem reads_argument (w : WrittenArgument) (h : s.Takes [w.token] s') :
    Reads argument s w.tree s' := by
  refine .andThen (peek_apply s) ?_
  rw [h.peek, WrittenArgument.termOfToken?_token]
  dsimp only
  rw [if_neg (w.fits)]
  exact .andThen (discard_run (take_of_takes h)) (reads_pure h.clean_end)

/-- A flow marker that was read was written, and if none was read none was taken. -/
theorem Reads.flow {found : Option Flow} (h : Reads flow s found s') :
    ∃ w : Option WrittenFlow, found = w.map (·.flow)
      ∧ s.Takes (w.toList.map (·.token.1)) s' := by
  obtain ⟨marker, s₁, heat, h⟩ := h.bind
  cases marker with
  | none =>
    obtain ⟨rfl, rfl⟩ := h.of_pure
    obtain ⟨token, hfound, -⟩ | ⟨-, rfl, -⟩ := Reads.eat (by decide) ⟨heat, h.clean⟩
    · cases hfound
    · exact ⟨none, rfl, .refl h.clean⟩
  | some marker =>
    have written (direction : Flow) (hword : String.ofList (markerWord marker.value) = direction.word)
        (h : Reads (pure (some direction)) s₁ found s') :
        ∃ w : Option WrittenFlow, found = w.map (·.flow)
          ∧ s.Takes (w.toList.map (·.token.1)) s' := by
      obtain ⟨rfl, rfl⟩ := h.of_pure
      obtain ⟨token, hfound, htakes⟩ | ⟨hfound, -⟩ := Reads.eat (by decide) ⟨heat, h.clean⟩
      · obtain rfl := Option.some.inj hfound
        exact ⟨some ⟨token, direction, hword⟩, rfl, htakes⟩
      · cases hfound
    dsimp only at h
    split at h
    next hword => exact written .input hword h
    split at h
    next hword => exact written .output hword h
    exact absurd h (not_reads_report .pure)

/-- A written flow marker is read. Where none is written, what follows must not look like one. -/
theorem reads_flow (w : Option WrittenFlow) (hnext : w = none → s.kindAt 0 ≠ .marker)
    (h : s.Takes (w.toList.map (·.token.1)) s') : Reads flow s (w.map (·.flow)) s' := by
  cases w with
  | none =>
    obtain ⟨rfl, hclean⟩ := takes_nil_iff.1 h
    exact .andThen (eat_of_ne (hnext rfl)) (reads_pure hclean)
  | some w =>
    have heat : eat .marker s = (some w.token.1, s') := eat_of_takes h
    refine .andThen heat ?_
    have hclean := h.clean_end
    obtain ⟨token, direction, hword⟩ := w
    cases direction with
    | input =>
      simp only [Flow.word] at hword
      simp only [hword, if_true]
      exact reads_pure hclean
    | output =>
      simp only [Flow.word] at hword
      simp only [hword, if_true, if_neg (show ¬ "out" = "in" by decide)]
      exact reads_pure hclean

/-- A type that was read behind its opening bracket was written. -/
theorem Reads.typeHint {type : TypeHint} (hat : s.kindAt 0 = .lParen)
    (h : Reads (typeHint stops) s type s') :
    ∃ w : WrittenType, type = w.tree ∧ s.Takes w.tokens s' := by
  obtain ⟨name, hread, rfl⟩ := h.of_ranged (g := TypeHint.mk) fun _ _ => rfl
  obtain ⟨_, s₁, hopening, h⟩ := hread.bind
  obtain ⟨found, s₂, hname, h⟩ := h.bind
  obtain ⟨bracket, s₃, hclosing, h⟩ := h.bind
  have hclosing : Reads _ s₂ bracket s₃ :=
    ⟨hclosing, Advances.clean (.ite (.bind advances_skipPast fun _ => .pure) .pure) h⟩
  have hname : Reads _ s₁ found s₂ := ⟨hname, advances_expect.clean hclosing⟩
  have hopening : Reads _ s _ s₁ := ⟨hopening, advances_expect.clean hname⟩
  obtain ⟨closing, rfl, hthird⟩ := hclosing.expect (by decide)
  obtain ⟨name, rfl, hsecond⟩ := hname.expect (by decide)
  obtain ⟨token, hopening⟩ := hopening.discard
  obtain ⟨rfl, hfirst⟩ := hopening.take (by simp [hat])
  obtain ⟨rfl, rfl⟩ := h.of_pure
  have hopens : s.peek.kind = .lParen := by rw [← hfirst.kindAt_zero, hat]
  let w : WrittenType := ⟨⟨s.peek, hopens⟩, name, closing⟩
  have htakes : s.Takes w.tokens s' := hfirst.cons (hsecond.cons hthird)
  exact ⟨w, by rw [htakes.rangeTo_of_ne_nil (by simp [w, WrittenType.tokens])]; rfl, htakes⟩

/-- A written type is read, whatever the reader would stop at. -/
theorem reads_typeHint (w : WrittenType) (h : s.Takes w.tokens s') :
    Reads (typeHint stops) s w.tree s' := by
  have hrange := h.rangeTo_of_ne_nil (by simp [WrittenType.tokens])
  obtain ⟨s₁, hopening, h⟩ := takes_cons_iff.1 h
  obtain ⟨s₂, hname, hclosing⟩ := takes_cons_iff.1 h
  rw [WrittenType.tree, ← hrange]
  refine .andThen (reads_ranged (a := w.name.1.value) ?_).run (reads_pure hclosing.clean_end)
  refine .andThen (discard_run (take_of_takes hopening)) ?_
  refine .andThen (expect_of_takes hname) (.andThen (expect_of_takes hclosing) ?_)
  exact reads_pure hclosing.clean_end

/-- What was read as a parameter was written as one. The parser goes two ways, with a type and
without; what comes after the type is the same on both and is proved once. -/
theorem Reads.parameter {a : Parameter} (hend : s'.ending.kind = .endOfFile)
    (h : Reads (parameter stops) s a s') :
    ∃ w : WrittenParameter, a = w.tree ∧ s.Takes w.tokens s' := by
  obtain ⟨parts, hread, rfl⟩ := h.of_ranged
    (g := fun x range => Parameter.mk x.1 x.2.1 x.2.2 range) fun _ _ => rfl
  obtain ⟨flow, s₁, hflow, h⟩ := hread.bind
  -- The argument stands behind the type if there is one.
  have written {type : Option TypeHint} {s₂ : Cursor}
      (htype : s₂.reports = [] → ∃ w : Option WrittenType, type = w.map (·.tree)
        ∧ s₁.Takes (w.toList.flatMap (·.tokens)) s₂)
      (h : Reads (do return (flow, type, ← Syntax.argument)) s₂ parts s') :
      ∃ w : WrittenParameter, ⟨parts.1, parts.2.1, parts.2.2, s.rangeTo s'⟩ = w.tree
        ∧ s.Takes w.tokens s' := by
    obtain ⟨argument, s₃, hargument, h⟩ := h.bind
    obtain ⟨rfl, rfl⟩ := h.of_pure
    have hargument : Reads Syntax.argument s₂ argument s' := ⟨hargument, h.clean⟩
    obtain ⟨type, rfl, hsecond⟩ := htype (advances_argument.clean hargument)
    obtain ⟨flow, rfl, hfirst⟩ := Reads.flow ⟨hflow, hsecond.clean⟩
    obtain ⟨argument, rfl, hthird⟩ := hargument.argument hend
    let w : WrittenParameter := ⟨flow, type, argument⟩
    have htakes : s.Takes w.tokens s' := (hfirst.trans hsecond).trans hthird
    exact ⟨w, by rw [htakes.rangeTo_of_ne_nil (by simp [w, WrittenParameter.tokens])]; rfl, htakes⟩
  have h := h.after (isAt_apply _ _)
  dsimp only at h
  split at h
  next hat =>
    obtain ⟨type, s₂, htype, h⟩ := h.bind
    refine written (fun hclean => ?_) h
    obtain ⟨type, rfl, hread⟩ := Reads.of_map ⟨htype, hclean⟩
    obtain ⟨type, rfl, htakes⟩ := hread.typeHint (by simpa using hat)
    exact ⟨some type, rfl, by simpa using htakes⟩
  next => exact written (fun hclean => ⟨none, rfl, .refl hclean⟩) (h.after (pure_apply _ _))

/-- A written parameter is read. The cases are those of the type that may be missing. -/
theorem reads_parameter (w : WrittenParameter) (h : s.Takes w.tokens s') :
    Reads (parameter stops) s w.tree s' := by
  have hrange := h.rangeTo_of_ne_nil (by simp [WrittenParameter.tokens])
  obtain ⟨s₂, h, hargument⟩ := takes_append_iff.1 h
  obtain ⟨s₁, hflow, htype⟩ := takes_append_iff.1 h
  have hkind := w.argument.kind_mem
  rw [← hargument.kindAt_zero] at hkind
  rw [WrittenParameter.tree, ← hrange]
  refine .andThen (reads_ranged
    (a := (w.flow.map (·.flow), w.type.map (·.tree), w.argument.tree)) ?_).run
    (reads_pure hargument.clean_end)
  have hread : Reads (do return (w.flow.map (·.flow), w.type.map (·.tree), ← argument)) s₂
      (w.flow.map (·.flow), w.type.map (·.tree), w.argument.tree) s' :=
    .andThen (reads_argument _ hargument).run (reads_pure hargument.clean_end)
  -- What comes next if there is no marker is the bracket of a type or the token of an argument.
  have hmarker : w.flow = none → s.kindAt 0 ≠ .marker := by
    intro hnone
    rw [hnone] at hflow
    obtain ⟨rfl, -⟩ := takes_nil_iff.1 hflow
    cases hw : w.type with
    | none =>
      rw [hw] at htype
      obtain ⟨rfl, -⟩ := takes_nil_iff.1 htype
      intro hkind'
      simp [hkind'] at hkind
    | some type =>
      rw [hw] at htype
      rw [htype.kindAt_zero, type.opening.2]
      decide
  refine .andThen (reads_flow _ hmarker hflow).run (.andThen (isAt_apply _ _) ?_)
  cases hw : w.type with
  | none =>
    rw [hw] at htype hread
    obtain ⟨rfl, -⟩ := takes_nil_iff.1 htype
    rw [if_neg (by intro hat; simp [beq_iff_eq.1 hat] at hkind)]
    exact .andThen (pure_apply _ _) hread
  | some type =>
    rw [hw] at htype hread
    have htype : s₁.Takes type.tokens s₂ := by simpa using htype
    rw [if_pos (by rw [htype.kindAt_zero, type.opening.2]; decide)]
    exact .andThen (reads_map (reads_typeHint type htype)).run hread

/-- A list of parameters that was read was written with its closing bracket. The bound of the loop
exceeds the tokens that are left, so that it cannot run out before the list is closed. -/
theorem Reads.parameterList {bound : Nat} {parameters : List Parameter}
    (hend : s'.ending.kind = .endOfFile) (hbound : s.ahead.length < bound)
    (h : Reads (parameterList stops bound) s parameters s') :
    ∃ (w : WrittenParameters) (closing : TokenOf .rParen), parameters = w.trees
      ∧ s.Takes (w.tokens ++ [closing.1]) s' := by
  -- Every parameter takes a token, so that one less is left whenever the bound goes down by one.
  induction bound generalizing s parameters with
  | zero => omega
  | succ bound ih =>
    have h := h.after (isAtAny_apply _ _)
    dsimp only at h
    split at h
    · -- The list is not closed, and that is reported.
      obtain ⟨_, s₁, hunclosed, h⟩ := h.bind
      obtain ⟨-, rfl⟩ := h.of_pure
      exact absurd ⟨hunclosed, h.clean⟩ (not_reads_missing advances_skipPast)
    obtain ⟨first, s₁, hfirst, h⟩ := h.bind
    obtain ⟨comma, s₂, hcomma, h⟩ := h.bind
    split at h
    next hfound =>
      obtain ⟨rest, s₃, hrest, h⟩ := h.bind
      obtain ⟨rfl, rfl⟩ := h.of_pure
      -- Nothing is reported at the end, so nothing was reported on the way there.
      have hrest : Reads _ s₂ rest s' := ⟨hrest, h.clean⟩
      have hcomma : Reads _ s₁ comma s₂ := ⟨hcomma, (advances_parameterList bound).clean hrest⟩
      have hfirst : Reads _ s first s₁ := ⟨hfirst, advances_eat.clean hcomma⟩
      obtain ⟨comma, rfl, hnext⟩ | ⟨rfl, -⟩ := hcomma.eat (by decide)
      · have hends := hnext.ends ((advances_parameterList bound).ends hrest hend)
        obtain ⟨first, rfl, htakes⟩ := hfirst.parameter hends
        have hpassed := htakes.trans hnext
        have hshort : s₂.ahead.length < bound := by
          have hlength := congrArg List.length hpassed.passes.ahead
          simp only [List.length_append, List.length_singleton] at hlength
          omega
        obtain ⟨rest, closing, rfl, hmore⟩ := ih hshort hrest
        exact ⟨.more first comma rest, closing, rfl,
          by simpa [WrittenParameters.tokens] using hpassed.trans hmore⟩
      · cases hfound
    next hnone =>
      obtain ⟨bracket, s₃, hbracket, h⟩ := h.bind
      split at h
      · obtain ⟨_, s₁, hunclosed, h⟩ := h.bind
        obtain ⟨-, rfl⟩ := h.of_pure
        exact absurd ⟨hunclosed, h.clean⟩ (not_reads_missing advances_skipPast)
      next hsome =>
        obtain ⟨rfl, rfl⟩ := h.of_pure
        have hbracket : Reads _ s₂ bracket s' := ⟨hbracket, h.clean⟩
        have hcomma : Reads _ s₁ comma s₂ := ⟨hcomma, advances_eat.clean hbracket⟩
        have hfirst : Reads _ s first s₁ := ⟨hfirst, advances_eat.clean hcomma⟩
        obtain ⟨closing, rfl, hclosing⟩ | ⟨rfl, -⟩ := hbracket.eat (by decide)
        · obtain ⟨comma, rfl, -⟩ | ⟨-, rfl, -⟩ := hcomma.eat (by decide)
          · exact absurd rfl hnone
          · obtain ⟨first, rfl, htakes⟩ := hfirst.parameter (hclosing.ends hend)
            exact ⟨.one first, closing, rfl, htakes.trans hclosing⟩
        · exact absurd rfl hsome

/-- A parameter that comes next is recognised by its first token. -/
theorem starts_parameter {w : WrittenParameter} (h : s.Takes w.tokens s₁) :
    ¬ (!parameterStart.contains (s.kindAt 0)) = true := by
  obtain ⟨first, rest, htokens, hkind, -⟩ := w.exists_cons
  rw [htokens] at h
  simpa [h.kindAt_zero] using hkind

/-- A written list is read to its closing bracket. -/
theorem reads_parameterList {bound : Nat} (w : WrittenParameters) (closing : TokenOf .rParen)
    (hbound : s.ahead.length < bound) (h : s.Takes (w.tokens ++ [closing.1]) s') :
    Reads (parameterList stops bound) s w.trees s' := by
  -- The loop follows the list as it is written: it ends behind the last parameter, where no comma
  -- stands.
  induction w generalizing s bound with
  | one first =>
    obtain ⟨s₁, hfirst, hclosing⟩ := takes_append_iff.1 h
    cases bound with
    | zero => omega
    | succ bound =>
      refine .andThen (isAtAny_apply _ _) ?_
      rw [if_neg (starts_parameter hfirst)]
      refine .andThen (reads_parameter first hfirst).run ?_
      refine .andThen (eat_of_ne (by rw [hclosing.kindAt_zero, closing.2]; decide)) ?_
      exact .andThen (eat_of_takes hclosing) (reads_pure hclosing.clean_end)
  | more first comma rest ih =>
    rw [WrittenParameters.tokens, List.append_assoc, List.cons_append] at h
    obtain ⟨s₁, hfirst, h⟩ := takes_append_iff.1 h
    obtain ⟨s₂, hcomma, hrest⟩ := takes_cons_iff.1 h
    cases bound with
    | zero => omega
    | succ bound =>
      have hshort : s₂.ahead.length < bound := by
        have hlength := congrArg List.length (hfirst.trans hcomma).passes.ahead
        simp only [List.length_append, List.length_cons] at hlength
        omega
      refine .andThen (isAtAny_apply _ _) ?_
      rw [if_neg (starts_parameter hfirst)]
      refine .andThen (reads_parameter first hfirst).run (.andThen (eat_of_takes hcomma) ?_)
      exact .andThen (ih hshort hrest).run (reads_pure hrest.clean_end)

/-! ## Signatures

What stands before the brackets is one name, or an owner, a dot and a name. The parser decides that
by the two tokens behind the first; they are known from what is taken afterwards, so the proofs of
both directions settle the brackets first. -/

/-- Behind the name stand the brackets with the parameters in them. -/
theorem Reads.brackets {identifier : Identifier} {owner : List Parameter}
    {parts : Identifier × List Parameter} (hend : s'.ending.kind = .endOfFile)
    (h : Reads (do
      if (← Parse.expect .lParen "'('").isNone then
        return (identifier, owner)
      if (← Parse.eat .rParen).isSome then
        return (identifier, owner)
      return (identifier, owner ++ (← Syntax.parameterList stops ((← get).ahead.length + 1))))
      s parts s') :
    ∃ (opening : TokenOf .lParen) (w : Option WrittenParameters) (closing : TokenOf .rParen),
      parts = (identifier, owner ++ w.toList.flatMap (·.trees))
        ∧ s.Takes (opening.1 :: w.toList.flatMap (·.tokens) ++ [closing.1]) s' := by
  obtain ⟨bracket, s₁, hopening, h⟩ := h.bind
  have hopening : Reads (Parse.expect .lParen "'('") s bracket s₁ := by
    refine ⟨hopening, Advances.clean ?_ h⟩
    refine .ite .pure (.bind advances_eat fun _ => .ite .pure ?_)
    exact .bind advances_get fun _ => .bind (advances_parameterList _) fun _ => .pure
  obtain ⟨opening, rfl, hfirst⟩ := hopening.expect (by decide)
  obtain ⟨bracket, s₂, hclosing, h⟩ := h.bind
  -- Either the brackets are closed at once, or there are parameters between them.
  split at h
  next hsome =>
    obtain ⟨rfl, rfl⟩ := h.of_pure
    obtain ⟨closing, rfl, hlast⟩ | ⟨rfl, -⟩ := Reads.eat (by decide) ⟨hclosing, h.clean⟩
    · exact ⟨opening, none, closing, by simp, hfirst.cons hlast⟩
    · cases hsome
  next hnone =>
    have h := h.after (get_apply s₂)
    obtain ⟨parameters, s₃, hparameters, h⟩ := h.bind
    obtain ⟨rfl, rfl⟩ := h.of_pure
    have hparameters : Reads _ s₂ parameters s' := ⟨hparameters, h.clean⟩
    obtain ⟨token, rfl, -⟩ | ⟨-, rfl, -⟩ :=
      Reads.eat (by decide) ⟨hclosing, (advances_parameterList _).clean hparameters⟩
    · exact absurd rfl hnone
    · obtain ⟨w, closing, rfl, htakes⟩ :=
        hparameters.parameterList hend (Nat.lt_succ_self _)
      exact ⟨opening, some w, closing, by simp, by simpa using hfirst.cons htakes⟩

/-- The brackets of a signature are read, with parameters between them or without. -/
theorem reads_brackets {identifier : Identifier} {owner : List Parameter}
    (opening : TokenOf .lParen) (w : Option WrittenParameters) (closing : TokenOf .rParen)
    (h : s.Takes (opening.1 :: w.toList.flatMap (·.tokens) ++ [closing.1]) s') :
    Reads (do
      if (← Parse.expect .lParen "'('").isNone then
        return (identifier, owner)
      if (← Parse.eat .rParen).isSome then
        return (identifier, owner)
      return (identifier, owner ++ (← Syntax.parameterList stops ((← get).ahead.length + 1))))
      s (identifier, owner ++ w.toList.flatMap (·.trees)) s' := by
  obtain ⟨s₁, hopening, h⟩ := takes_cons_iff.1 h
  refine .andThen (expect_of_takes hopening) ?_
  cases w with
  | none =>
    refine .andThen (eat_of_takes h) ?_
    simpa using reads_pure h.clean_end
  | some w =>
    have h : s₁.Takes (w.tokens ++ [closing.1]) s' := by simpa using h
    have hat : s₁.kindAt 0 ≠ .rParen := by
      obtain ⟨first, rest, htokens, hkind⟩ := w.exists_cons
      rw [htokens] at h
      rw [h.kindAt_zero]
      intro hbracket
      rw [hbracket] at hkind
      exact absurd hkind (by decide)
    refine .andThen (eat_of_ne hat) (.andThen (get_apply s₁) ?_)
    refine .andThen (reads_parameterList w closing (Nat.lt_succ_self _) h).run ?_
    simpa using reads_pure h.clean_end

/-- What was read as a signature was written as one, and the tree is the tree of what was written. -/
theorem Reads.signature {a : Signature} (hend : s'.ending.kind = .endOfFile)
    (h : Reads (signature stops) s a s') :
    ∃ w : WrittenSignature, a = w.tree ∧ s.Takes w.tokens s' := by
  obtain ⟨parts, hread, rfl⟩ := h.of_ranged
    (g := fun x range => Signature.mk x.1 x.2 range) fun _ _ => rfl
  obtain ⟨first, s₁, hfirst, h⟩ := hread.bind
  -- Without a first name there is a report, whatever comes after it.
  cases first with
  | none =>
    obtain ⟨_, _, hmissing, h⟩ := h.bind
    obtain ⟨-, rfl⟩ := h.of_pure
    have hclean := advances_missingRange.clean ⟨hmissing, h.clean⟩
    obtain ⟨_, hnone, -⟩ := Reads.expect (by decide) ⟨hfirst, hclean⟩
    cases hnone
  | some first =>
    have h := (h.after (isAt_apply _ _)).after (kindAt_apply _ _)
    dsimp only at h
    split at h
    next hdot =>
      rw [Bool.and_eq_true, beq_iff_eq, beq_iff_eq] at hdot
      obtain ⟨_, s₂, htake, h⟩ := h.bind
      obtain ⟨name, s₃, hname, h⟩ := h.bind
      obtain ⟨opening, parameters, closing, rfl, hbrackets⟩ :=
        (h.after (pure_apply _ _)).brackets hend
      have hname : Reads Parse.take s₂ name s₃ := ⟨hname, hbrackets.clean⟩
      -- Both tokens were looked at before they were taken, so their kinds are known.
      obtain ⟨dot, htake⟩ := Reads.discard ⟨htake, advances_take.clean hname⟩
      obtain ⟨rfl, hdots⟩ := htake.take (by simp [hdot.1])
      obtain ⟨rfl, hnames⟩ := hname.take (by simp [← hdots.passes.kindAt_one, hdot.2])
      obtain ⟨first, hsome, htakes⟩ := Reads.expect (by decide) ⟨hfirst, hdots.clean⟩
      obtain rfl := Option.some.inj hsome
      let w : WrittenSignature :=
        ⟨some (first, ⟨s₁.peek, by rw [← hdots.kindAt_zero, hdot.1]⟩),
          ⟨s₂.peek, by rw [← hnames.kindAt_zero, ← hdots.passes.kindAt_one, hdot.2]⟩,
          opening, parameters, closing⟩
      have htakes : s.Takes w.tokens s' :=
        htakes.cons (hdots.cons (hnames.cons hbrackets))
      exact ⟨w, by rw [htakes.rangeTo_of_ne_nil (by simp [w, WrittenSignature.tokens])]; rfl, htakes⟩
    next hdot =>
      obtain ⟨opening, parameters, closing, rfl, hbrackets⟩ :=
        (h.after (pure_apply _ _)).brackets hend
      obtain ⟨first, hsome, htakes⟩ := Reads.expect (by decide) ⟨hfirst, hbrackets.clean⟩
      obtain rfl := Option.some.inj hsome
      let w : WrittenSignature := ⟨none, first, opening, parameters, closing⟩
      have htakes : s.Takes w.tokens s' := htakes.cons hbrackets
      exact ⟨w, by rw [htakes.rangeTo_of_ne_nil (by simp [w, WrittenSignature.tokens])]; rfl, htakes⟩

/-- A written signature is read, and its tree is what the parser returns. This and the lemma before
it say that on signatures the parser and the grammar are one. -/
theorem reads_signature (w : WrittenSignature) (h : s.Takes w.tokens s') :
    Reads (signature stops) s w.tree s' := by
  have hrange := h.rangeTo_of_ne_nil (by simp [WrittenSignature.tokens])
  rw [WrittenSignature.tree, ← hrange]
  obtain ⟨owner, name, opening, parameters, closing⟩ := w
  -- An owner is told by the dot and the name behind it.
  cases owner with
  | none =>
    refine .andThen (reads_ranged (a := (Identifier.ofToken name,
      [] ++ parameters.toList.flatMap (·.trees))) ?_).run (reads_pure h.clean_end)
    obtain ⟨s₁, hname, hbrackets⟩ := takes_cons_iff.1 h
    refine .andThen (expect_of_takes hname) ?_
    refine .andThen (isAt_apply _ _) (.andThen (kindAt_apply _ _) ?_)
    have hat : s₁.kindAt 0 = .lParen := by rw [← opening.2]; exact hbrackets.kindAt_zero
    rw [if_neg (by simp [hat])]
    exact .andThen (pure_apply _ _) (reads_brackets opening parameters closing hbrackets)
  | some owner =>
    obtain ⟨owner, dot⟩ := owner
    refine .andThen (reads_ranged (a := (Identifier.ofToken name,
      [ownerParameter owner] ++ parameters.toList.flatMap (·.trees))) ?_).run (reads_pure h.clean_end)
    obtain ⟨s₁, howner, h⟩ := takes_cons_iff.1 h
    obtain ⟨s₂, hdot, h⟩ := takes_cons_iff.1 h
    obtain ⟨s₃, hname, hbrackets⟩ := takes_cons_iff.1 h
    refine .andThen (expect_of_takes howner) ?_
    refine .andThen (isAt_apply _ _) (.andThen (kindAt_apply _ _) ?_)
    rw [if_pos (by simp [hdot.kindAt_zero, hdot.passes.kindAt_one, hname.kindAt_zero, dot.2, name.2])]
    refine .andThen (discard_run (take_of_takes hdot)) ?_
    refine .andThen (take_of_takes hname) (.andThen (pure_apply _ _) ?_)
    exact reads_brackets opening parameters closing hbrackets

end Parse
end StoryCheck.Syntax
