import Trajectory.Window

/-!
Recording the ends of the accepted pieces of a run, and tables of recorded states.
-/

namespace Trajectory

variable {α : Type}

/-- Times with the states at them, one row for each time. -/
structure Table (α : Type) where
  times : List α
  states : List (State α)
deriving DecidableEq

/-- The table of some rows. There is none without rows, or with states of different shapes. -/
def Table.ofRows (rows : List (α × State α)) : Except (Error α) (Table α) :=
  match rows with
  | [] => .error .table
  | first :: rest =>
    if rest.all (·.2.shape == first.2.shape) then .ok ⟨rows.map (·.1), rows.map (·.2)⟩
    else .error .table

/-- The boundaries of the accepted pieces of a run. -/
structure Recorder (α : Type) where
  /-- The boundaries with the states there, the latest first. -/
  latestRows : List (α × State α)
  /-- Whether each piece was the last one, the latest first. -/
  latestFlags : List Bool
deriving DecidableEq

namespace Recorder

/-- A recorder before its first run. -/
def empty : Recorder α := ⟨[], []⟩

/-- The boundaries in order, the initial one first. -/
def rows (r : Recorder α) : List (α × State α) := r.latestRows.reverse

/-- Whether each piece was the last one, in order. -/
def flags (r : Recorder α) : List Bool := r.latestFlags.reverse

/-- A recorder at the start of a run; what it recorded before is forgotten. -/
def start (t0 : α) (y0 : State α) : Recorder α := ⟨[(t0, y0)], []⟩

/-- Records the end of a piece. -/
def accept (r : Recorder α) (piece : Window α) (last : Bool) : Recorder α :=
  ⟨(piece.stop, piece.yStop) :: r.latestRows, last :: r.latestFlags⟩

end Recorder

end Trajectory
