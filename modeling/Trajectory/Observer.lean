import Trajectory.Observer.Normalizer
import Trajectory.Observer.Sampler
import Trajectory.Reference.Tracker

/-!
Observers of a run. Each hears of its start and then of every accepted piece, in order, with word whether the run
ends with it. An observer forgets earlier runs when a new one starts.
-/

namespace Trajectory

variable {ω α : Type}

/-- The observers of the library, and any other given by what it does. -/
inductive Observer (ω α : Type) where
  /-- Records the ends of all pieces. -/
  | recorder (r : Recorder α)
  /-- Samples the dense output at requested times. -/
  | sampler (s : Sampler α)
  /-- Calls back on a regular grid. -/
  | normalizer (n : Normalizer ω α)
  /-- Measures the error against a known solution. -/
  | tracker (k : Tracker ω α)
  /-- Does something at the start and at every piece. -/
  | custom (onStart : α → State α → α → Effect ω α Unit)
      (onPiece : Window α → Bool → Effect ω α Unit)

namespace Observer

variable [Scalar α]

/-- The table that an observer has made of the run, if it makes one. -/
def table (o : Observer ω α) : Except (Error α) (Table α) :=
  match o with
  | .recorder r => Table.ofRows r.rows
  | .sampler s => Table.ofRows s.rows
  | .normalizer _ | .tracker _ | .custom _ _ => .error .noTable

/-- Tells an observer of the start of a run. -/
def start (t0 : α) (y0 : State α) (target : α) : Effect (Observer ω α × ω) α Unit :=
  Effect.of fun (o, w) =>
    match o with
    | .recorder _ => (.ok (), .recorder (Recorder.start t0 y0), w)
    | .sampler s => (.ok (), .sampler (s.start t0 y0 target), w)
    | .normalizer n =>
      match (Normalizer.start t0 y0 target).runFrom (n, w) with
      | (r, n, w) => (r, .normalizer n, w)
    | .tracker k => (.ok (), .tracker (k.start t0), w)
    | .custom onStart onPiece =>
      match (onStart t0 y0 target).runFrom w with
      | (r, w) => (r, .custom onStart onPiece, w)

variable [Spacing α]

/-- Hands an accepted piece to an observer. -/
def accept (piece : Window α) (last : Bool) : Effect (Observer ω α × ω) α Unit :=
  Effect.of fun (o, w) =>
    match o with
    | .recorder r => (.ok (), .recorder (r.accept piece last), w)
    | .sampler s =>
      match s.accept piece with
      | (r, s) => (r, .sampler s, w)
    | .normalizer n =>
      match (Normalizer.accept piece last).runFrom (n, w) with
      | (r, n, w) => (r, .normalizer n, w)
    | .tracker k =>
      match (Tracker.accept piece last).runFrom k with
      | (r, k) => (r, .tracker k, w)
    | .custom onStart onPiece =>
      match (onPiece piece last).runFrom w with
      | (r, w) => (r, .custom onStart onPiece, w)

end Observer

end Trajectory
