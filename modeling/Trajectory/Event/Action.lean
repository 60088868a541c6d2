/-!
What becomes of a run once an event has been located in it.
-/

namespace Trajectory

/-- The answers of an event handler. -/
inductive Action where
  /-- The run goes on as if nothing had happened. -/
  | carryOn
  /-- The handler replaces the state, and stepping starts afresh from it. -/
  | resetState
  /-- The state stays, but the derivative has changed: stepping starts afresh. -/
  | resetDerivatives
  /-- The run ends at the event. -/
  | stop
deriving DecidableEq

namespace Action

/-- The name of an action. -/
def name : Action → String
  | .carryOn => "continue"
  | .resetState => "reset_state"
  | .resetDerivatives => "reset_derivatives"
  | .stop => "stop"

/-- The action of a given name. -/
def ofName? (s : String) : Option Action :=
  [carryOn, resetState, resetDerivatives, stop].find? (·.name == s)

/-- Whether an action keeps the remaining handlers of a group from being asked. -/
def interrupts : Action → Bool
  | .stop | .resetState => true
  | .carryOn | .resetDerivatives => false

end Action

end Trajectory
