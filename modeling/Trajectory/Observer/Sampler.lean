import Trajectory.Observer.Recorder

/-!
Sampling the dense output of a run at requested times.

The times are taken in the order in which they are requested. Those equal to the start time are answered with the
initial state; each of the others waits for the first piece whose end it does not lie beyond.
-/

namespace Trajectory

variable {α : Type}

/-- The requested times of a run and the samples taken so far. -/
structure Sampler (α : Type) where
  requested : List α
  pending : List α
  /-- The samples taken, the latest first. -/
  latestRows : List (α × State α)
  forward : Bool
deriving DecidableEq

namespace Sampler

/-- A sampler before its first run. -/
def create (times : List α) : Sampler α := ⟨times, times, [], true⟩

/-- A sampler at the times of an array with one axis. -/
def ofTensor (times : Tensor α) : Except (Error α) (Sampler α) :=
  match times.shape with
  | [_] => .ok (create times.entries)
  | _ => .error .notNumber

/-- The samples in order. -/
def rows (s : Sampler α) : List (α × State α) := s.latestRows.reverse

variable [Scalar α]

/-- A sampler at the start of a run; samples of earlier runs are forgotten. -/
def start (s : Sampler α) (t0 : α) (y0 : State α) (target : α) : Sampler α where
  requested := s.requested
  pending := s.requested.dropWhile (· == t0)
  latestRows := (s.requested.takeWhile (· == t0)).map fun _ => (t0, y0)
  forward := decide (t0 ≤ target)

/-- Whether a time does not lie beyond a bound. -/
def reached (forward : Bool) (t bound : α) : Bool :=
  if forward then decide (t ≤ bound) else decide (bound ≤ t)

variable [Spacing α]

/-- Takes samples from a piece as long as times are reached: the outcome, the times left and the samples. -/
def take (forward : Bool) (piece : Window α) :
    List α → List (α × State α) → Except (Error α) Unit × List α × List (α × State α)
  | [], rows => (.ok (), [], rows)
  | t :: rest, rows =>
    if reached forward t piece.stop then
      match piece.stateAt t with
      | .error e => (.error e, t :: rest, rows)
      | .ok y => take forward piece rest ((t, y) :: rows)
    else (.ok (), t :: rest, rows)

/-- Takes the samples that lie in a piece. Those taken before a failure are kept. -/
def accept (s : Sampler α) (piece : Window α) : Except (Error α) Unit × Sampler α :=
  match take s.forward piece s.pending s.latestRows with
  | (r, pending, rows) => (r, { s with pending := pending, latestRows := rows })

end Sampler

end Trajectory
