import Trajectory.Reference.Problem
import Trajectory.Window

/-!
Measuring the error of a run against the solution of a reference problem.

The state is compared at the midpoint of every piece, where the dense output is away from the discontinuities of
events, and at the end of the run. The times of the expected events are compared with the nearest boundary
between pieces, once the run is over.
-/

namespace Trajectory

variable {ω α : Type}

/-- The errors of a run so far. -/
structure Tracker (ω α : Type) where
  problem : Problem ω α
  /-- The largest error of the state at a midpoint. -/
  maxValueError : α
  /-- The largest distance of an expected event time from a boundary. -/
  maxTimeError : α
  lastError : α
  lastTime : α
  /-- The boundaries between pieces, the latest first. -/
  latestBoundaries : List α

namespace Tracker

variable [Scalar α]

/-- A tracker before its first run. -/
def create (p : Problem ω α) : Tracker ω α := ⟨p, 0.0, 0.0, 0.0, p.t0, []⟩

/-- A tracker at the start of a run; the errors of earlier runs are forgotten. -/
def start (k : Tracker ω α) (t0 : α) : Tracker ω α := ⟨k.problem, 0.0, 0.0, 0.0, t0, [t0]⟩

/-- The largest deviation of an entry from the solution. -/
def deviation (k : Tracker ω α) (t : α) (y : State α) : Except (Error α) α := do
  let exact ← k.problem.solutionAt t
  requireFit [y, exact]
  match (y - exact).maxNorm? with
  | some norm => return norm
  | none => throw .emptyNorm

/-- The distance of a time from the nearest of some boundaries. -/
def nearest (t : α) : List α → α
  | [] => Scalar.undefined
  | b :: rest => rest.foldl (fun best c => Scalar.smaller best (Scalar.abs (t - c))) (Scalar.abs (t - b))

/-- The largest distance of an expected event time from the nearest boundary, if it exceeds `least`. -/
def timeError (k : Tracker ω α) (least : α) : α :=
  k.problem.eventTimes.foldl
    (fun worst t => Scalar.larger worst (nearest t k.latestBoundaries.reverse)) least

variable [Spacing α]

/-- The deviation at the midpoint of a piece. -/
def midpointError (k : Tracker ω α) (piece : Window α) : Except (Error α) α := do
  let mid := 0.5 * (piece.start + piece.stop)
  let y ← piece.stateAt mid
  k.deviation mid y

/-- Compares a piece with the solution. What was measured before a failure is kept. -/
def accept (piece : Window α) (last : Bool) : Effect (Tracker ω α) α Unit := do
  let k ← get
  let error ← k.midpointError piece
  modify fun k => { k with
    maxValueError := Scalar.larger k.maxValueError error
    latestBoundaries := piece.stop :: k.latestBoundaries }
  if last then
    let final ← k.deviation piece.stop piece.yStop
    modify fun k => { k with
      lastError := final
      lastTime := piece.stop
      maxTimeError := k.timeError k.maxTimeError }

end Tracker

end Trajectory
