import Trajectory.Effect
import Trajectory.Event.Action
import Trajectory.State

/-!
Event handlers: switching functions whose zeros are events, with the reaction to each event.

A `Handler` is any such object, given by what it does. A `SwitchingFunction` is one put together from plain
functions, with a fixed action or a rule that decides for every event.
-/

namespace Trajectory

variable {ω α : Type}

/-- An event handler. It keeps no record of what has been detected. -/
structure Handler (ω α : Type) where
  /-- Called once at the start of a run, with the start time, the initial state and the target time. -/
  init : α → State α → α → Effect ω α Unit
  /-- The switching function. -/
  g : α → State α → Effect ω α α
  /-- Called at an event, with the time, the state, and whether the switching function increases there. -/
  eventOccurred : α → State α → Bool → Effect ω α Action
  /-- The state to go on with after an action that resets it. -/
  resetState : α → State α → Effect ω α (State α)
  /-- The crossings to report: all for zero, the increasing ones for a positive number, the decreasing ones for a
  negative number. -/
  direction : Int

/-- Whether a handler of some direction wants to hear of a crossing. -/
def Handler.wants (handler : Handler ω α) (increasing : Bool) : Bool :=
  handler.direction == 0 || increasing == decide (0 < handler.direction)

/-- How the action at an event is found. -/
inductive Decision (ω α : Type) where
  /-- The same action at every event. -/
  | always (action : Action)
  /-- A rule that decides from the time, the state and the direction of the crossing. -/
  | byRule (rule : α → State α → Bool → Effect ω α Action)

/-- Whether the decision is to reset the state every time. -/
def Decision.alwaysResets : Decision ω α → Bool
  | .always .resetState => true
  | _ => false

/-- An event handler assembled from functions. -/
structure SwitchingFunction (ω α : Type) where
  /-- The switching function. -/
  g : α → State α → Effect ω α α
  decision : Decision ω α
  /-- The state to go on with after a reset, if there is one. -/
  reset : Option (α → State α → Effect ω α (State α))
  /-- The crossings to report: `1` for increasing, `-1` for decreasing, `0` for all. -/
  direction : Int
  name : String

namespace SwitchingFunction

/-- A switching function with one of the three directions, and with a reset if it always resets. -/
def create (g : α → State α → Effect ω α α) (decision : Decision ω α)
    (reset : Option (α → State α → Effect ω α (State α))) (direction : Int) (name : String) :
    Except (Error α) (SwitchingFunction ω α) :=
  if ¬ (direction = -1 ∨ direction = 0 ∨ direction = 1) then .error (.crossingDirection direction)
  else if decision.alwaysResets && reset.isNone then .error .resetMissing
  else .ok ⟨g, decision, reset, direction, name⟩

/-- The action at an event. -/
def eventOccurred (s : SwitchingFunction ω α) (t : α) (y : State α) (increasing : Bool) :
    Effect ω α Action :=
  match s.decision with
  | .always action => pure action
  | .byRule rule => rule t y increasing

/-- The state after a reset. -/
def resetState (s : SwitchingFunction ω α) (t : α) (y : State α) : Effect ω α (State α) :=
  match s.reset with
  | some reset => reset t y
  | none => throw (.noReset s.name)

/-- The switching function as an event handler. Nothing happens at the start of a run. -/
def toHandler (s : SwitchingFunction ω α) : Handler ω α where
  init _ _ _ := pure ()
  g := s.g
  eventOccurred := s.eventOccurred
  resetState := s.resetState
  direction := s.direction

end SwitchingFunction

end Trajectory
