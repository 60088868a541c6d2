import Trajectory.Decimal.Layout
import Trajectory.InitialValue
import Trajectory.Text.Quoted

/-!
The texts that show windows and event handlers, and the wording of the notices that a solution leaves.
-/

namespace Trajectory

variable {ω α : Type}

/-- The text that shows a window: the kind of dense output and its two bounds. -/
def Window.describe (w : Window Float) : String :=
  "HermiteInterpolator([" ++ Decimal.text w.start ++ ", " ++ Decimal.text w.stop ++ "])"

/-- The text that shows a switching function. -/
def SwitchingFunction.describe (s : SwitchingFunction ω α) : String :=
  "SwitchingFunction(" ++ Text.quoted s.name ++ ", direction=" ++ toString s.direction ++ ")"

/-- The text of a notice. -/
def Notice.text : Notice Float → String
  | .solving scheme => s!"Solving with {scheme}"
  | .span a b h steps =>
    s!"Time: [{Decimal.text a}, {Decimal.text b}], dt={Decimal.text h}, ~{steps} total steps"
  | .evaluating points => s!"Evaluating at {points} time points"
  | .stopped t => s!"Integration stopped by event at t={Decimal.text t}"
  | .reached scheme t steps evaluations =>
    s!"{scheme} integration reached t={Decimal.text t} in {steps} steps ({evaluations} evaluations)"

end Trajectory
