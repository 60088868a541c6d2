import Trajectory.Equation
import Trajectory.Scheme

/-!
Steppers: a scheme, computed as it stands or compiled, that takes single steps along a right-hand side.

A compiled stepper goes through the stages once for every pair of shapes of state and derivative that it meets;
afterwards the stages make no calls. The derivatives at the two ends of a step are always evaluated by calls.
-/

namespace Trajectory

variable {ω α : Type}

/-- A scheme and whether its stages are compiled. -/
structure Stepper where
  scheme : Scheme
  compiles : Bool
deriving DecidableEq

namespace Stepper

variable [Scalar α]

/-- The state at the end of a step from `(t, y)` with derivative `yp`. -/
def increment (stepper : Stepper) (f : Rate ω α) (t : α) (y : State α) (h : α) (yp : State α) :
    Effect (Tally ω) α (State α) := do
  if !stepper.compiles then
    stepper.scheme.increment f.call t y h yp
  else
    let shapes := (y.shape, yp.shape)
    if (← get).compiled.contains shapes then
      stepper.scheme.increment f.compiledCall t y h yp
    else
      let yNext ← stepper.scheme.increment f.compilingCall t y h yp
      modify fun s => { s with compiled := shapes :: s.compiled }
      return yNext

/-- Takes a step and evaluates the derivative at both its ends; the one at the start only if it is not known. -/
def advance (stepper : Stepper) (f : Rate ω α) (t : α) (y : State α) (h : α)
    (yp : Option (State α)) : Effect (Tally ω) α (Step α) := do
  let h ← checkStepSize h
  let yp ← match yp with
    | some yp => pure yp
    | none => f.call t y
  let yNext ← stepper.increment f t y h yp
  let tNext := t + h
  let ypNext ← f.call tNext yNext
  return ⟨t, y, tNext, yNext, yp, ypNext⟩

/-- The state at the end of a step, with no derivative there. -/
def step (stepper : Stepper) (f : Rate ω α) (t : α) (y : State α) (h : α) :
    Effect (Tally ω) α (State α) := do
  let h ← checkStepSize h
  let yp ← f.call t y
  stepper.increment f t y h yp

end Stepper

end Trajectory
