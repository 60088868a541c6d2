import Trajectory.Effect
import Trajectory.Window

/-!
Reporting a run on a regular grid of times, whatever steps it takes.

The grid starts at the start time of the run and points along it. A callback is called at every grid point that
the run reaches, with the dense output there, and at the end of the run.
-/

namespace Trajectory

variable {ω α : Type}

/-- A grid, the callback that hears of its points, and the progress of the current run along it. -/
structure Normalizer (ω α : Type) where
  spacing : α
  /-- Called with the time, the state, and whether the run ends there. -/
  callback : α → State α → Bool → Effect ω α Unit
  t0 : α
  /-- The number of grid points reported behind the start. -/
  count : Nat
  /-- The spacing with the sign of the run. -/
  signedSpacing : α
  lastTime : Option α

namespace Normalizer

variable [Scalar α]

/-- A normalizer with a positive and finite spacing. -/
def create (spacing : α) (callback : α → State α → Bool → Effect ω α Unit) :
    Except (Error α) (Normalizer ω α) :=
  if decide (0.0 < spacing) && Scalar.isFinite spacing then
    .ok ⟨spacing, callback, 0.0, 0, spacing, none⟩
  else .error (.gridSpacing spacing)

/-- The grid point of a given number. -/
def gridPoint (n : Normalizer ω α) (k : Nat) : α := n.t0 + Scalar.ofNat k * n.signedSpacing

/-- Starts a run: the grid begins at its start, which is reported. -/
def start (t0 : α) (y0 : State α) (target : α) : Effect (Normalizer ω α × ω) α Unit := do
  modify fun (n, w) =>
    ({ n with
        t0 := t0
        count := 0
        signedSpacing := if t0 ≤ target then n.spacing else -n.spacing
        lastTime := some t0 }, w)
  let (n, _) ← get
  Effect.onSecond (n.callback t0 y0 false)

/-- Whether a time lies beyond a bound in the direction of the grid. -/
def beyond (n : Normalizer ω α) (t bound : α) : Bool :=
  if Scalar.isPositive n.signedSpacing then decide (bound < t) else decide (t < bound)

variable [Spacing α]

/-- Reports the grid points in a piece, at most so many. -/
def report (piece : Window α) (last : Bool) : Nat → Effect (Normalizer ω α × ω) α Unit
  | 0 => throw .stalled
  | rounds + 1 => do
    let (n, _) ← get
    let t := n.gridPoint (n.count + 1)
    if n.beyond t piece.stop then return
    modify fun (n, w) => ({ n with count := n.count + 1, lastTime := some t }, w)
    let y ← piece.stateAt t
    Effect.onSecond (n.callback t y (last && t == piece.stop))
    report piece last rounds

/-- A bound for the number of grid points up to the end of a piece. -/
def rounds (n : Normalizer ω α) (piece : Window α) : Nat :=
  Scalar.countFor ((Scalar.abs (piece.stop - n.t0) + piece.slack) / n.spacing) + 2

/-- Reports the grid points in a piece, and its end if the run ends there. -/
def accept (piece : Window α) (last : Bool) : Effect (Normalizer ω α × ω) α Unit := do
  let (n, _) ← get
  report piece last (n.rounds piece)
  let (n, _) ← get
  let reported := match n.lastTime with
    | some t => t == piece.stop
    | none => false
  if last && !reported then
    modify fun (n, w) => ({ n with lastTime := some piece.stop }, w)
    Effect.onSecond (n.callback piece.stop piece.yStop true)

end Normalizer

end Trajectory
