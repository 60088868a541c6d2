import Trajectory.Run.Pass

/-!
The engine that carries out runs: a stepper with its step size and budget, the registered handlers and observers,
and an account of the last run.

A run that its inputs rule out is refused before anything is called, and leaves the account of the run before it.
Any other run replaces the account, whether it succeeds or fails. So does a run that a function of the caller aborts,
but its end is not recorded: the engine keeps the status that it has during a run.
-/

namespace Trajectory

variable {ω α : Type}

/-- How a run stands. -/
inductive RunStatus where
  | running
  /-- The run reached its target, or a handler ended it. -/
  | done
  | failed
deriving DecidableEq

/-- How a run stands after its end. A run that was aborted still stands as running. -/
def RunStatus.after {β : Type} : Except (Error α) β → RunStatus
  | .ok _ => .done
  | .error e => if e.isFailure then .failed else .running

/-- The name of a status. -/
def RunStatus.name : RunStatus → String
  | .running => "running"
  | .done => "done"
  | .failed => "failed"

/-- An engine for runs with a fixed step size. -/
structure Engine (ω α : Type) where
  stepper : Stepper
  /-- The step size; a negative one only allows runs to earlier times. -/
  stepSize : α
  maxSteps : Nat
  watches : List (Handler ω α × Settings α)
  observers : List (Observer ω α)
  /-- How the last run stands, if there was one. -/
  status : Option RunStatus
  /-- The number of evaluations of the right-hand side in the last run. -/
  evaluations : Nat
  /-- The number of accepted pieces in the last run. -/
  accepted : Nat
  /-- The journal of the last run. -/
  journal : Journal α

namespace Engine

/-- The name of the stepping scheme. -/
def name (e : Engine ω α) : String := e.stepper.scheme.name

/-- Registers an observer. -/
def addObserver (e : Engine ω α) (o : Observer ω α) : Engine ω α :=
  { e with observers := e.observers ++ [o] }

/-- Removes all observers. -/
def clearObservers (e : Engine ω α) : Engine ω α := { e with observers := [] }

/-- Registers a handler with checked settings. Its index is the number of handlers registered before it. -/
def watch (e : Engine ω α) (handler : Handler ω α) (settings : Settings α) : Engine ω α :=
  { e with watches := e.watches ++ [(handler, settings)] }

/-- Removes all handlers. -/
def clearHandlers (e : Engine ω α) : Engine ω α := { e with watches := [] }

variable [Scalar α]

/-- An engine with a usable step size and budget, and nothing registered. -/
def create (stepper : Stepper) (stepSize : α) (maxSteps : Int) : Except (Error α) (Engine ω α) := do
  let stepSize ← checkStepSize stepSize
  if maxSteps < 1 then throw (.stepBudget maxSteps)
  return ⟨stepper, stepSize, maxSteps.toNat, [], [], none, 0, 0, []⟩

/-- Registers a handler, either with complete settings or with single options. -/
def addHandler (e : Engine ω α) (handler : Handler ω α) (settings : Option (Settings α))
    (options : SettingsOptions α) : Except (Error α) (Engine ω α) :=
  match settings with
  | some settings => if options.isNone then .ok (e.watch handler settings) else .error .settingsTwice
  | none => do
    let settings ← Settings.ofOptions options
    return e.watch handler settings

/-- Registers the handlers of a problem, all with the same options. -/
def addProblemHandlers (e : Engine ω α) (p : Problem ω α) (options : SettingsOptions α) :
    Except (Error α) (Engine ω α) :=
  p.handlers.foldlM (fun e s => e.addHandler s.toHandler none options) e

/-- The step size with the sign of a run. -/
def signedStep (e : Engine ω α) (forward : Bool) : Except (Error α) α :=
  if forward && decide (e.stepSize < 0.0) then .error (.stepDirection e.stepSize)
  else .ok (if forward then Scalar.abs e.stepSize else -Scalar.abs e.stepSize)

/-- Succeeds if a run starts and ends at finite times. -/
def requireBounds (t0 target : α) : Except (Error α) Unit :=
  if Scalar.isFinite t0 && Scalar.isFinite target then .ok () else .error (.timeBounds t0 target)

/-- The course of a run, if its inputs allow one: finite times that are not too close to each other, an initial
state of the right size, and a step size that fits the direction. -/
def prepare (e : Engine ω α) (equation : Equation ω α) (t0 : α) (y0 : State α) (target : α) :
    Except (Error α) (Course ω α) := do
  requireBounds t0 target
  equation.requireSize .state y0
  if Scalar.abs (target - t0) ≤ 1e-12 * Scalar.larger (Scalar.abs t0) (Scalar.abs target) then
    throw (.interval t0 target)
  let forward := decide (t0 < target)
  let h ← e.signedStep forward
  return ⟨equation, e.stepper, h, target, forward, e.maxSteps⟩

variable [Spacing α]

/-- Integrates from an initial state towards a target time: the time reached and the state there. -/
def integrate (equation : Equation ω α) (t0 : α) (y0 : State α) (target : α) :
    Effect (Engine ω α × ω) α (α × State α) := do
  let (e, w) ← get
  let course ← e.prepare equation t0 y0 target
  let session := Session.start w (Monitor.create e.watches) e.observers
  modify fun (e, w) => ({ e with status := some .running }, w)
  let (result, session) := (course.run t0 y0).runFrom session
  modify fun (e, _) =>
    ({ e with
        observers := session.observers
        status := some (.after result)
        evaluations := session.tally.evaluations
        accepted := session.accepted
        journal := session.journal }, session.tally.world)
  result

/-- Integrates whatever is handed over as the system; only a system has a dimension. -/
def integrateSource (source : Source ω α) (t0 : α) (y0 : State α) (target : α) :
    Effect (Engine ω α × ω) α (α × State α) :=
  match source with
  | .equation e => integrate e t0 y0 target
  | .rate _ _ => do
    requireBounds t0 target
    throw (.noDimension "function")
  | .other kind => do
    requireBounds t0 target
    throw (.noDimension kind)

end Engine

end Trajectory
