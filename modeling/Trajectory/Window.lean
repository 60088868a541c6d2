import Trajectory.Step

/-!
Dense output: the cubic that a step determines, and the window in which it may be queried.

The cubic takes the states of the step at its two ends and has the derivatives of the step there. It spans the
whole step for good; narrowing a window moves the bounds of permitted queries, never the polynomial. At its two
bounds a window answers with stored states, so that pieces of a step that share a bound share the state there
exactly. Queries beyond a bound are served within a small slack.
-/

namespace Trajectory

variable {α : Type}

/-- The part of a step's dense output that may be queried. -/
structure Window (α : Type) where
  /-- The step that determines the cubic. -/
  step : Step α
  /-- The bound of the window at the start side of the step. -/
  start : α
  /-- The bound of the window at the end side of the step. -/
  stop : α
  yStart : State α
  yStop : State α
deriving DecidableEq

/-- How far, relative to the length of the step, a query may lie beyond a bound. -/
def softSlack [Scalar α] : α := 1e-12

namespace Step

variable [Scalar α]

/-- The position of a time in a step, zero at its start and one at its end. -/
def position (s : Step α) (t : α) : Except (Error α) α := quotient (t - s.t) s.h

/-- The cubic of a step at a position. -/
def cubic (s : Step α) (θ : α) : State α :=
  let t2 := θ * θ
  let t3 := t2 * θ
  let h00 := 2.0 * t3 - 3.0 * t2 + 1.0
  let h10 := t3 - 2.0 * t2 + θ
  let h01 := 3.0 * t2 - 2.0 * t3
  let h11 := t3 - t2
  h00 * s.y + h01 * s.yNext + s.h * (h10 * s.yp + h11 * s.ypNext)

/-- The derivative of the cubic with respect to time, at a position. -/
def cubicRate (s : Step α) (θ : α) : State α :=
  let d00 := 6.0 * θ * (θ - 1.0)
  let d10 := θ * (3.0 * θ - 4.0) + 1.0
  let d11 := θ * (3.0 * θ - 2.0)
  (d00 * (s.y - s.yNext)) / s.h + d10 * s.yp + d11 * s.ypNext

/-- Succeeds if the states and derivatives fit together in the formula of the cubic. -/
def requireCubic (s : Step α) : Except (Error α) Unit := do
  let states ← jointShape [s.y, s.yNext]
  let rates ← jointShape [s.yp, s.ypNext]
  let _ ← states.joined rates

/-- Succeeds if the states and derivatives fit together in the formula of the cubic's derivative. -/
def requireCubicRate (s : Step α) : Except (Error α) Unit :=
  requireFit [s.y, s.yNext, s.yp, s.ypNext]

end Step

namespace Window

variable [Scalar α]

/-- The window on a whole step. -/
def ofStep (s : Step α) : Window α := ⟨s, s.t, s.tNext, s.y, s.yNext⟩

/-- The signed length of the window. -/
def h (w : Window α) : α := w.stop - w.start

/-- Whether the step leads to later times. -/
def forward (w : Window α) : Bool := decide (w.step.t < w.step.tNext)

/-- The smaller and the greater of the two bounds. -/
def bounds (w : Window α) : α × α :=
  if w.stop < w.start then (w.stop, w.start) else (w.start, w.stop)

variable [Spacing α]

/-- How far a query may lie beyond a bound. -/
def slack (w : Window α) : α :=
  let (lo, hi) := w.bounds
  softSlack * Scalar.abs w.step.h +
    4.0 * Spacing.ulp (Scalar.larger (Scalar.abs lo) (Scalar.abs hi))

/-- Whether a time may be queried. -/
def admits (w : Window α) (t : α) : Bool :=
  let (lo, hi) := w.bounds
  decide (lo - w.slack ≤ t) && decide (t ≤ hi + w.slack)

/-- Succeeds for the times that may be queried. -/
def check (w : Window α) (t : α) : Except (Error α) Unit :=
  if w.admits t then .ok () else .error (.outsideWindow t w.start w.stop)

/-- The state at a time. -/
def stateAt (w : Window α) (t : α) : Except (Error α) (State α) := do
  w.check t
  if t == w.start then return w.yStart
  if t == w.stop then return w.yStop
  let θ ← w.step.position t
  w.step.requireCubic
  return w.step.cubic θ

/-- The derivative of the dense output at a time. -/
def derivativeAt (w : Window α) (t : α) : Except (Error α) (State α) := do
  w.check t
  let θ ← w.step.position t
  w.step.requireCubicRate
  return w.step.cubicRate θ

/-- Narrows the window. Both bounds must be times that may be queried now, and must not run against the step. -/
def restrict (w : Window α) (start stop : α) : Except (Error α) (Window α) := do
  w.check start
  w.check stop
  if (stop - start) * (w.step.tNext - w.step.t) < 0.0 then
    throw (.reversedWindow start stop)
  let yStart ← w.stateAt start
  let yStop ← w.stateAt stop
  return { w with start := start, stop := stop, yStart := yStart, yStop := yStop }

/-- Narrows the window to end at an earlier point of the step. -/
def truncate (w : Window α) (stop : α) : Except (Error α) (Window α) := w.restrict w.start stop

end Window

end Trajectory
