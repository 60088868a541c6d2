import Trajectory.Effect
import Trajectory.Step

/-!
Explicit Runge–Kutta schemes: the increment of one step from the derivative at its start.

A scheme of order `s` evaluates the right-hand side at `s - 1` further stages. The increments are written in
the order in which they are computed.
-/

namespace Trajectory

/-- The stepping schemes. -/
inductive Scheme where
  /-- Forward Euler: the derivative at the start, held over the step. -/
  | euler
  /-- The derivative at the middle of the step, reached by half an Euler step. -/
  | midpoint
  /-- The classical scheme of four stages. -/
  | rk4
  /-- A scheme that is left open: it has no increment. -/
  | abstract
deriving DecidableEq

namespace Scheme

/-- The name of a scheme. -/
def name : Scheme → String
  | .euler => "euler"
  | .midpoint => "midpoint"
  | .rk4 => "classical Runge-Kutta"
  | .abstract => "abstract"

/-- The order of accuracy. -/
def order : Scheme → Nat
  | .euler => 1
  | .midpoint => 2
  | .rk4 => 4
  | .abstract => 0

variable {σ α : Type} [Scalar α]

/-- The state at the end of a step of size `h` from `(t, y)`, where the derivative is `yp`. -/
def increment (scheme : Scheme) (f : α → State α → Effect σ α (State α)) (t : α) (y : State α)
    (h : α) (yp : State α) : Effect σ α (State α) :=
  match scheme with
  | .euler => do
    requireFit [y, yp]
    return y + h * yp
  | .midpoint => do
    requireFit [y, yp]
    let k2 ← f (t + 0.5 * h) (y + (0.5 * h) * yp)
    requireFit [y, k2]
    return y + h * k2
  | .rk4 => do
    let k1 := yp
    requireFit [y, k1]
    let k2 ← f (t + 0.5 * h) (y + (0.5 * h) * k1)
    requireFit [y, k2]
    let k3 ← f (t + 0.5 * h) (y + (0.5 * h) * k2)
    requireFit [y, k3]
    let k4 ← f (t + h) (y + h * k3)
    requireFit [k1, k2, k3, k4, y]
    return y + (h / 6.0) * (k1 + (2.0 : α) * k2 + (2.0 : α) * k3 + k4)
  | .abstract => throw .noIncrement

end Scheme

end Trajectory
