import Trajectory.Run.Session

/-!
The loop of a run, one pass at a time.

A pass takes a step if none is being scanned, scans what is left of it, and either settles the step, when no event
lies in it, or reacts to the first group of events. Every pass accepts exactly one piece or fails, so the budget
of accepted pieces bounds the number of passes.

The members of a group are asked in turn until one stops the run or replaces the state. The piece up to the event
is accepted before the state is replaced.
-/

namespace Trajectory

variable {ω α : Type}

/-- A step that is being scanned. -/
structure Leg (α : Type) where
  step : Step α
  /-- Whether it leads to the target time. -/
  last : Bool
deriving DecidableEq

/-- Where a run stands between two passes. -/
inductive Phase (α : Type) where
  /-- At a time and a state, with the derivative there if it is known, before the next step. -/
  | stepping (t : α) (y : State α) (yp : Option (State α))
  /-- Inside a step, of which a window is left to scan. -/
  | scanning (leg : Leg α) (window : Window α)
deriving DecidableEq

/-- The outcome of a pass. -/
inductive Progress (α : Type) where
  | finished (t : α) (y : State α)
  | onward (phase : Phase α)
deriving DecidableEq

/-- What the members of a group have decided together. -/
inductive Verdict (ω α : Type) where
  | carryOn
  /-- Stepping starts afresh from the event. -/
  | restart
  /-- Stepping starts afresh from the state that a handler supplies. -/
  | replace (index : Nat) (handler : Handler ω α)
  | stop

/-- Whether a verdict ends the run. -/
def Verdict.isStop : Verdict ω α → Bool
  | .stop => true
  | _ => false

/-- A step that would end this close to the target, relative to its size, is stretched to it. -/
def lastStepSlack [Scalar α] : α := 1e-12

/-- Whether a state has one axis, with as many entries as an equation has unknowns. -/
def Equation.accepts (e : Equation ω α) (y : State α) : Bool :=
  match y.shape with
  | [n] => e.dimension == n
  | _ => false

/-- Succeeds for the states that an equation accepts. -/
def Equation.requireSize (e : Equation ω α) (what : Quantity) (y : State α) :
    Except (Error α) Unit :=
  if e.accepts y then .ok () else .error (.dimension what e.dimension y.size)

namespace Course

variable [Scalar α]

/-- Whether the next step from a time is the last one. -/
def isLast (course : Course ω α) (t : α) : Bool :=
  decide (runSign course.forward * (course.target - (t + course.h)) ≤
    lastStepSlack * Scalar.abs course.h)

/-- Takes the next step. The last one leads to the target exactly. -/
def nextLeg (course : Course ω α) (t : α) (y : State α) (yp : Option (State α)) :
    Effect (Session ω α) α (Leg α) := do
  let last := course.isLast t
  let h := if last then course.target - t else course.h
  let step ← Session.onTally (course.stepper.advance course.equation.toRate t y h yp)
  return ⟨if last then { step with tNext := course.target } else step, last⟩

/-- Asks the members of a group in turn, given what those before them decided. -/
def consult (t : α) (y : State α) :
    List (Occurrence α) → Verdict ω α → Effect (Session ω α) α (Verdict ω α)
  | [], verdict => pure verdict
  | o :: rest, verdict => do
    let some channel := (← get).monitor.channels[o.index]? | throw (.handlerIndex o.index)
    Session.note (.asked o y)
    let action ← Session.outside (channel.handler.eventOccurred t y o.increasing)
    Session.note (.answered o.index action)
    Session.onMonitor (Monitor.acknowledge o.index o.t)
    match action with
    | .stop => return .stop
    | .resetState => return .replace o.index channel.handler
    | .resetDerivatives => consult t y rest .restart
    | .carryOn => consult t y rest verdict

variable [Spacing α]

/-- Accepts what is left of a step in which no event lies. -/
def settle (course : Course ω α) (leg : Leg α) (window : Window α) :
    Effect (Session ω α) α (Progress α) := do
  Session.dispatch course window leg.last
  Session.onMonitor (Monitor.commit window.stop window.yStop)
  if leg.last then return .finished window.stop window.yStop
  else return .onward (.stepping window.stop window.yStop (some leg.step.ypNext))

/-- Starts stepping afresh from a state, unless the target is reached. -/
def restart (t : α) (y : State α) (atEnd : Bool) : Effect (Session ω α) α (Progress α) := do
  Session.onMonitor (Monitor.commit t y)
  if atEnd then return .finished t y
  else return .onward (.stepping t y none)

/-- Reacts to a group of events at a time. -/
def react (course : Course ω α) (leg : Leg α) (window : Window α) (t : α)
    (group : List (Occurrence α)) : Effect (Session ω α) α (Progress α) := do
  let piece ← window.truncate t
  let y := piece.yStop
  let verdict ← consult t y group .carryOn
  let atEnd := leg.last && t == leg.step.tNext
  Session.dispatch course piece (verdict.isStop || atEnd)
  match verdict with
  | .stop =>
    Session.note (.stopped t)
    return .finished t y
  | .replace index handler =>
    let y ← Session.outside (handler.resetState t y)
    course.equation.requireSize .resetState y
    Session.note (.replaced index t y)
    restart t y atEnd
  | .restart => restart t y atEnd
  | .carryOn =>
    Session.onMonitor (Monitor.commit t y)
    if t == window.stop then
      if leg.last then return .finished t y
      else return .onward (.stepping t y (some leg.step.ypNext))
    else
      let rest ← window.restrict t window.stop
      return .onward (.scanning leg rest)

/-- Scans a window, if there are handlers to watch. -/
def scan (window : Window α) : Effect (Session ω α) α (List (Occurrence α)) := do
  if (← get).monitor.channels.isEmpty then return []
  let group ← Session.onMonitor (Monitor.scan window)
  return group

/-- One pass of the loop. -/
def pass (course : Course ω α) (phase : Phase α) : Effect (Session ω α) α (Progress α) := do
  let (leg, window) ← match phase with
    | .stepping t y yp => do
      let leg ← course.nextLeg t y yp
      pure (leg, Window.ofStep leg.step)
    | .scanning leg window => pure (leg, window)
  match ← scan window with
  | [] => course.settle leg window
  | first :: rest =>
    Session.note (.located window (first :: rest))
    course.react leg window first.t (first :: rest)

/-- Runs at most so many passes. -/
def passes (course : Course ω α) : Nat → Phase α → Effect (Session ω α) α (α × State α)
  | 0, _ => throw .stalled
  | left + 1, phase => do
    match ← course.pass phase with
    | .finished t y => return (t, y)
    | .onward phase => course.passes left phase

/-- A whole run from an initial state: the first derivative, the handlers and observers, and the passes. -/
def run (course : Course ω α) (t0 : α) (y0 : State α) : Effect (Session ω α) α (α × State α) := do
  let yp ← Session.onTally (course.equation.call t0 y0)
  course.equation.requireSize .derivative yp
  Session.onMonitor (Monitor.init t0 y0 course.target)
  Session.onObservers (Effect.forEach (Observer.start t0 y0 course.target))
  course.passes (course.budget + 1) (.stepping t0 y0 (some yp))

end Course

end Trajectory
