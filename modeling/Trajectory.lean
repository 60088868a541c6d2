import Trajectory.Scalar.Double
import Trajectory.Scalar.Exact
import Trajectory.Error.Message
import Trajectory.Reference.Catalogue
import Trajectory.Text.Description
import Trajectory.Proofs.Continuity
import Trajectory.Proofs.Interruption
import Trajectory.Proofs.Retrigger
import Trajectory.Proofs.Genuine
import Trajectory.Proofs.Safety
import Trajectory.Proofs.Reversal
import Trajectory.Proofs.Rescaling
import Trajectory.Proofs.Budget
import Trajectory.Proofs.Registration
import Trajectory.Proofs.History
import Trajectory.Proofs.Trigger
import Trajectory.Proofs.Transparency
import Trajectory.Proofs.Conclusion
import Trajectory.Proofs.Reuse
import Trajectory.Proofs.Termination
import Trajectory.Proofs.Renewal
import Trajectory.Proofs.WorstCase
import Trajectory.Proofs.Completeness
import Trajectory.Proofs.Crossing
import Trajectory.Proofs.Account
import Trajectory.Proofs.Passes
import Trajectory.Proofs.Record
import Trajectory.Proofs.Exits
import Trajectory.Proofs.Table
import Trajectory.Proofs.Selection
import Trajectory.Proofs.Timing
import Trajectory.Proofs.StepGrid
import Trajectory.Proofs.Aftermath
import Trajectory.Proofs.Cubic
import Trajectory.Proofs.Evaluations
import Trajectory.Proofs.Reports
import Trajectory.Proofs.Exactness
import Trajectory.Proofs.Requests
import Trajectory.Proofs.Measuring
import Trajectory.Proofs.ClosedForm
