import Mathlib
import StoryCheck.Syntax.Calls

/-!
# Sketches of goals

A goal is a large tree, of which inference reads the names, the arguments and the places. A sketch
builds such a tree from these: every part of a call stands where the call does.

Examples are made of sketches, and most of them are evaluated through whole sweeps. The equations of
the state monad that this takes come with the whole library only, which is why it is imported here, once
for all modules that have such an example.
-/

namespace StoryCheck.Syntax.Sketch

/-- A call that stands at an offset of the first line. -/
def call (start : Nat) (name : String) (terms : List Term) : Signature :=
  let range := Range.empty start start
  { identifier := { name, range }
    parameters := terms.map fun term =>
      { flow := none, type := none, argument := { term, range }, range }
    range }

/-- A block of actions. -/
def actions (calls : List Signature) : ActionBlock :=
  { actions := calls.map fun call => { form := .call call false, range := call.range }
    range := .empty 0 0 }

/-- A rule that runs its actions when its conditions come true, the first of which is its head. -/
def rule (head : Signature) (conditions written : List Signature) : Rule :=
  { kind := .ifRule, head
    conditions :=
      { conditions := conditions.map fun call => { form := .call call false, range := call.range }
        range := .empty 0 0 }
    actions := actions written, region := none, comment := none, range := head.range }

/-- A goal without options. -/
def goal (init : List Signature) (rules : List Rule) (exit : List Signature) : Goal :=
  { options := [], init := actions init, rules, exit := actions exit, range := .empty 0 0 }

end StoryCheck.Syntax.Sketch
