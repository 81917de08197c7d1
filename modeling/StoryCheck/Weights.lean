/-!
# Weights of goals

Goals are ranked: what stands in a goal of less weight comes first.
-/

namespace StoryCheck

/-- The weight of each goal that has one. -/
abbrev Weights := List (String × Nat)

namespace Weights

/-- The weight of a goal that has none, the largest number of 32 bits. -/
def unranked : Nat := 4294967295

/-- The weight of a goal. -/
def of (weights : Weights) (goal : String) : Nat :=
  ((weights.find? fun (g, _) => g == goal).map (·.2)).getD unranked

end Weights

end StoryCheck
