import StoryCheck.Main
import StoryCheck.Project.Change
import StoryCheck.Story.Query
import StoryCheck.Syntax.Node
import StoryCheck.Proofs.Symbol.Lookup
import StoryCheck.Proofs.Symbol.Attempt
import StoryCheck.Proofs.Symbol.Evolution
import StoryCheck.Proofs.Symbol.Edits
import StoryCheck.Proofs.Symbol.Justified
import StoryCheck.Proofs.Symbol.JustifiedRuns
import StoryCheck.Proofs.Symbol.LostResolution
import StoryCheck.Proofs.Symbol.Settling
import StoryCheck.Proofs.Symbol.SettledUpdate
import StoryCheck.Proofs.Symbol.CallSites
import StoryCheck.Proofs.Symbol.Contributions
import StoryCheck.Proofs.Symbol.Acyclic
import StoryCheck.Proofs.Symbol.Alike
import StoryCheck.Proofs.Symbol.GoalOrder
import StoryCheck.Proofs.Goals.Listing
import StoryCheck.Proofs.Story.Upkeep
import StoryCheck.Proofs.Story.Reload
import StoryCheck.Proofs.Symbol.Derivable
import StoryCheck.Proofs.Symbol.DeadVerdicts
import StoryCheck.Proofs.Symbol.Usages
import StoryCheck.Proofs.Symbol.Representation
import StoryCheck.Proofs.Symbol.Deadlocks
import StoryCheck.Proofs.Symbol.FirstComplete
import StoryCheck.Proofs.Symbol.Termination
import StoryCheck.Proofs.Symbol.Visits
import StoryCheck.Proofs.Symbol.Built
import StoryCheck.Proofs.Symbol.Evaluation
import StoryCheck.Proofs.Symbol.Residue
import StoryCheck.Proofs.Story.Coherence
import StoryCheck.Proofs.Story.Reanalysis
import StoryCheck.Proofs.Story.IdleDatabases
import StoryCheck.Proofs.Controller.AtomicSteps
import StoryCheck.Proofs.Controller.EventStream
import StoryCheck.Proofs.Syntax.Advance
import StoryCheck.Proofs.Syntax.WrittenGoal
import StoryCheck.Proofs.Syntax.Acceptance
import StoryCheck.Proofs.Syntax.HeaderContents
import StoryCheck.Proofs.Syntax.Damage
import StoryCheck.Proofs.Syntax.TreePlaces
import StoryCheck.Proofs.Project.Watching
import StoryCheck.Proofs.Token.Tiling
import StoryCheck.Proofs.Syntax.SourceMaps
import StoryCheck.Proofs.Syntax.NodeSearch
import StoryCheck.Proofs.Syntax.MissingCloser
import StoryCheck.Proofs.Token.Lookahead
import StoryCheck.Proofs.Token.Guids
import StoryCheck.Proofs.Text.Positions
import StoryCheck.Proofs.Goals.Preorder
import StoryCheck.Proofs.Goals.Forest
import StoryCheck.Proofs.Goals.Hanging
import StoryCheck.Proofs.Story.Renaming
import StoryCheck.Proofs.Story.Redirecting
import StoryCheck.Proofs.Project.FailedReloads
import StoryCheck.Proofs.Check.ConstantActions
import StoryCheck.Proofs.Check.ReportOrder
import StoryCheck.Proofs.Check.UnboundVariables
import StoryCheck.Proofs.Symbol.Suggestions
