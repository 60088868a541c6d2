import Trajectory.Run.Engine

/-!
Solving an initial value problem in one call, for the final state alone or for a history of states.

A solution leaves notices of its progress. A history holds a row for the start time and for each requested time
that the run reached.
-/

namespace Trajectory

variable {ω α : Type}

/-- What a solution reports of its progress. -/
inductive Notice (α : Type) where
  | solving (scheme : String)
  /-- The time span, the step size and the estimated number of steps. -/
  | span (start target h : α) (steps : Int)
  | evaluating (points : Nat)
  | stopped (t : α)
  /-- The run ended, after so many accepted pieces and evaluations. -/
  | reached (scheme : String) (t : α) (steps evaluations : Nat)
deriving DecidableEq

/-- An initial value problem and the means to solve it. -/
structure InitialValue (ω α : Type) where
  source : Source ω α
  start : α
  target : α
  y0 : State α
  stepper : Stepper
  stepSize : α
  /-- The handlers, each with its settings if they are not the usual ones. -/
  handlers : List (Handler ω α × Option (Settings α))
  maxSteps : Int

/-- A computation that leaves notices, the latest first. -/
abbrev Noted (ω α β : Type) : Type := Effect (List (Notice α) × ω) α β

/-- Leaves a notice. -/
def Noted.leave (n : Notice α) : Noted ω α Unit := modify fun (ns, w) => (n :: ns, w)

namespace InitialValue

variable [Scalar α]

/-- The engine with the handlers registered. -/
def engine (p : InitialValue ω α) : Except (Error α) (Engine ω α) := do
  let e ← Engine.create p.stepper p.stepSize p.maxSteps
  p.handlers.foldlM (fun e (handler, settings) => e.addHandler handler settings .none) e

/-- The estimated number of steps from the start to the target. -/
def estimate (p : InitialValue ω α) : Except (Error α) Int :=
  let ratio := Scalar.abs (p.target - p.start) / Scalar.abs p.stepSize
  if Scalar.isUndefined ratio then .error .undefinedEstimate
  else if !Scalar.isFinite ratio then .error .infiniteEstimate
  else .ok (Scalar.ceil (Scalar.flush ratio))

/-- Whether one requested time is less than another. Requested times are compared as arrays are, flushed. -/
def earlier (s t : α) : Bool := decide (Scalar.flush s < Scalar.flush t)

/-- Whether two requested times are equal. -/
def sameTime (s t : α) : Bool := Scalar.flush s == Scalar.flush t

/-- Whether some time is less than the one before it, or greater for a run to earlier times. -/
def disordered (forward : Bool) (times : List α) : Bool :=
  (List.zipWith (Scalar.flushed (· - ·)) times.tail times).any fun d =>
    if forward then decide (d < 0.0) else decide (0.0 < d)

/-- The rows of an array along its last axis, of the given extent. -/
def lastRows (extent : Nat) : Nat → List α → List (List α)
  | 0, _ => []
  | rows + 1, xs => xs.take extent :: lastRows extent rows (xs.drop extent)

/-- Whether the requested times are out of order along their last axis. -/
def unordered (forward : Bool) (times : Tensor α) : Except (Error α) Bool :=
  match times.shape.getLast? with
  | none => .error .singleSample
  | some extent => .ok ((lastRows extent (Shape.size times.shape.dropLast) times.entries).any
      (disordered forward))

/-- The requested times with the start time in front, if they do not begin with it. The first part of an array with
several axes can be compared with the start time if it is a single number, but not be put behind it. -/
def withStart (start : α) (times : Tensor α) : Except (Error α) (Tensor α) :=
  match times.shape, times.entries with
  | [_], [] => .error .noSamples
  | [_], first :: _ =>
    .ok (if sameTime first start then times else Tensor.ofList (start :: times.entries))
  | [], _ => .error .singleSample
  | 0 :: _, _ => .error .noSamples
  | _ :: s, entries =>
    match Shape.size s, entries with
    | 1, first :: _ => if sameTime first start then .ok times else .error .notNumber
    | _, _ => .error .ambiguousSample

/-- The times of the rows of a history: the requested times, with the start time in front if they do not begin
with it; the two ends of the span if none are requested. Requested times have to lie in the span, in the order of
the run. -/
def rowTimes (p : InitialValue ω α) (times : Option (Tensor α)) : Except (Error α) (Tensor α) := do
  match times with
  | none => return Tensor.ofList [p.start, p.target]
  | some times =>
    let lo := Scalar.smaller p.start p.target
    let hi := Scalar.larger p.start p.target
    if times.entries.any (earlier · lo) || times.entries.any (earlier hi ·) then
      throw .sampleOutsideSpan
    if ← unordered (decide (p.start ≤ p.target)) times then
      throw .samplesUnordered
    withStart p.start times

variable [Spacing α]

/-- Runs an engine on the problem and leaves the notices of the run. -/
def runWith (p : InitialValue ω α) (e : Engine ω α) (equation : Equation ω α) :
    Noted ω α (Engine ω α × α × State α) := do
  let (ns, w) ← get
  let (result, e, w) := (Engine.integrate equation p.start p.y0 p.target).runFrom (e, w)
  set (ns, w)
  e.journal.stops.forM fun t => Noted.leave (.stopped t)
  let (t, y) ← result
  Noted.leave (.reached e.name t e.accepted e.evaluations)
  return (e, t, y)

/-- The time reached and the state there. -/
def solve (p : InitialValue ω α) : Noted ω α (α × State α) := do
  let equation ← p.source.toEquation p.y0
  let e ← p.engine
  let (_, t, y) ← p.runWith e equation
  return (t, y)

/-- The states at requested times, or at the two ends of the span. With `verbose`, notices announce the run. -/
def history (p : InitialValue ω α) (times : Option (Tensor α)) (verbose : Bool) :
    Noted ω α (Table α) := do
  let times ← p.rowTimes times
  let equation ← p.source.toEquation p.y0
  let e ← p.engine
  let sampler ← Sampler.ofTensor times
  let e := e.addObserver (.sampler sampler)
  if verbose then
    Noted.leave (.solving e.name)
    let steps ← p.estimate
    Noted.leave (.span p.start p.target p.stepSize steps)
    Noted.leave (.evaluating sampler.requested.length)
  let (e, _, _) ← p.runWith e equation
  match e.observers.getLast? with
  | some observer => observer.table
  | none => throw .noTable

end InitialValue

end Trajectory
