import Relex.Service.Jobs
import Relex.Proofs.Extent
import Relex.Proofs.Content
import Relex.Proofs.Batch
import Relex.Proofs.Replacement
import Relex.Proofs.Settled
import Relex.Proofs.Ends
import Relex.Proofs.FullBuild
import Relex.Proofs.Lookup
import Relex.Proofs.Mending
import Relex.Proofs.Realigning
import Relex.Proofs.Workspace.Calm
import Relex.Proofs.Workspace.Equivalence
import Relex.Proofs.Workspace.InOrder
import Relex.Proofs.Workspace.UpToFailure
import Relex.Proofs.Grammar.Total
import Relex.Proofs.Workspace.Booked
import Relex.Proofs.Workspace.Neighbours
import Relex.Proofs.Workspace.Tended
import Relex.Proofs.Registry
import Relex.Proofs.Service.Tended
import Relex.Proofs.Service.AnyOrder
import Relex.Proofs.Service.Refetching
import Relex.Proofs.Arrivals
import Relex.Proofs.Service.Registrations
import Relex.Proofs.Service.Closed
import Relex.Proofs.Sharing
import Relex.Proofs.Addressed
import Relex.Proofs.Service.LoadedOnce
import Relex.Proofs.Service.Settling
import Relex.Proofs.Tally
import Relex.Proofs.Convergence
import Relex.Proofs.Workspace.Malformed
import Relex.Proofs.Grammar.Tiling
import Relex.Proofs.Workspace.Pointing
import Relex.Proofs.Workspace.Courses
import Relex.Proofs.RoundTrip
import Relex.Proofs.Workspace.Refusal
import Relex.Proofs.Workspace.Strict
import Relex.Proofs.Stopping
import Relex.Proofs.Workspace.Cost
import Relex.Proofs.Moving
import Relex.Proofs.Grammar.Priority
import Relex.Proofs.Offsets
import Relex.Proofs.Grammar.Validity
import Relex.Proofs.Grammar.Recognizing
import Relex.Proofs.MovingRanges
import Relex.Proofs.Clamping
import Relex.Proofs.Workspace.Forgetting
import Relex.Proofs.Workspace.Deeds
import Relex.Proofs.Workspace.Disposed
import Relex.Proofs.Covering
import Relex.Proofs.Passes
import Relex.Proofs.Workspace.Balance
import Relex.Proofs.Workspace.Profiling
import Relex.Proofs.Service.Nesting
import Relex.Proofs.FallingBack
import Relex.Proofs.Shifting
import Relex.Proofs.Grammar.SelfInclusion
import Relex.Proofs.Workspace.Besides
import Relex.Proofs.Workspace.Leftover
import Relex.Proofs.Text.Writing
import Relex.Proofs.Pattern.Skipping
