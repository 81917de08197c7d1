import StoryCheck.Check.Context
/-!
# Parents of a goal

A goal names as its parents goals of the same story.
-/

namespace StoryCheck.Check

/-- Reports parents that do not exist. -/
def parentReports (context : CheckContext) : List Diagnostic :=
  (context.goal.tree.parentEdges.filter fun (parent, _) => !context.goalNames.contains parent).map
    fun (parent, range) =>
      .error .unresolvedParentGoal s!"Parent goal '{parent}' does not exist" range.span

end StoryCheck.Check
