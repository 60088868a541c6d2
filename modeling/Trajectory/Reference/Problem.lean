import Trajectory.Equation
import Trajectory.Event.Handler

/-!
Initial value problems with a known solution in closed form.

The formulas of a problem are total; where the scalars cannot represent what a formula needs, `rateDomain` and
`solutionDomain` say so, and `stateDomain` asks for the entries that the right-hand side reads. A compiled
right-hand side computes with the scalars as they are.
-/

namespace Trajectory

variable {ω α : Type}

/-- An initial value problem and its solution. -/
structure Problem (ω α : Type) where
  name : String
  t0 : α
  tFinal : α
  y0 : State α
  rate : α → State α → State α
  solution : α → State α
  /-- The event handlers that belong to the problem. -/
  handlers : List (SwitchingFunction ω α)
  /-- The times at which the handlers are expected to report events. -/
  eventTimes : List α
  /-- Succeeds at the times at which the right-hand side can be evaluated. -/
  rateDomain : α → Except (Error α) Unit
  /-- Succeeds for the states for which the right-hand side can be evaluated. -/
  stateDomain : State α → Except (Error α) Unit
  /-- Succeeds at the times at which the solution can be evaluated. -/
  solutionDomain : α → Except (Error α) Unit

namespace Problem

/-- The right-hand side where it can be evaluated. -/
def rateAt (p : Problem ω α) (t : α) (y : State α) : Except (Error α) (State α) := do
  p.rateDomain t
  p.stateDomain y
  return p.rate t y

/-- The solution where it can be evaluated. -/
def solutionAt (p : Problem ω α) (t : α) : Except (Error α) (State α) := do
  p.solutionDomain t
  return p.solution t

/-- The system of a problem. Every evaluation first runs `onCall`, for instance to be counted. -/
def toEquation (p : Problem ω α) (onCall : Effect ω α Unit) : Equation ω α where
  eval t y := do
    onCall
    p.rateAt t y
  onCompile := onCall
  compiled t y := do
    p.stateDomain y
    return p.rate t y
  dimension := p.y0.size
  label := p.name

/-- Every value is in the domain. -/
def everywhere {β : Type} (_ : β) : Except (Error α) Unit := .ok ()

end Problem

end Trajectory
