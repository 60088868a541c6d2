import Trajectory.State

/-!
A step of an integration: two times, the states there, and the derivatives there. These six values determine the
dense output between the two times.
-/

namespace Trajectory

variable {α : Type}

/-- A completed step. -/
structure Step (α : Type) where
  t : α
  y : State α
  tNext : α
  yNext : State α
  yp : State α
  ypNext : State α
deriving DecidableEq

namespace Step

variable [Scalar α]

/-- The signed length of a step. -/
def h (s : Step α) : α := s.tNext - s.t

end Step

variable [Scalar α]

/-- Accepts the finite step sizes other than zero. -/
def checkStepSize (h : α) : Except (Error α) α :=
  if Scalar.isZero h || !Scalar.isFinite h then .error (.stepSize h) else .ok h

/-- The quotient of two scalars; there is none by a zero of either sign. -/
def quotient (x y : α) : Except (Error α) α :=
  if Scalar.isZero y then .error .divisionByZero else .ok (x / y)

end Trajectory
