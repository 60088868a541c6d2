import Trajectory.Event.Monitor

/-!
The journal of a run: what it did, in order.

The journal holds every event that was located, every question put to a handler with its answer, every accepted
piece, and every replacement of the state. The evaluations of the right-hand side are not part of it.
-/

namespace Trajectory

variable {α : Type}

/-- One thing that a run did. -/
inductive Entry (α : Type) where
  /-- A scan of a window found a group of occurrences. -/
  | located (window : Window α) (group : List (Occurrence α))
  /-- A handler was told of its event, with the state there. -/
  | asked (occurrence : Occurrence α) (y : State α)
  | answered (index : Nat) (action : Action)
  /-- A piece was accepted and handed to the observers, with word whether it is the last one. -/
  | accepted (piece : Window α) (last : Bool)
  | replaced (index : Nat) (t : α) (y : State α)
  | stopped (t : α)
deriving DecidableEq

namespace Entry

/-- The piece that an entry reports as accepted, with its flag. -/
def piece? : Entry α → Option (Window α × Bool)
  | accepted piece last => some (piece, last)
  | _ => none

/-- The event that an entry reports as put to a handler, with the state there. -/
def notification? : Entry α → Option (Occurrence α × State α)
  | asked occurrence y => some (occurrence, y)
  | _ => none

/-- The group that an entry reports as located, with the scanned window. -/
def group? : Entry α → Option (Window α × List (Occurrence α))
  | located window group => some (window, group)
  | _ => none

/-- The time at which an entry reports the run as ended by a handler. -/
def stop? : Entry α → Option α
  | stopped t => some t
  | _ => none

end Entry

/-- The entries of a run in order. -/
abbrev Journal (α : Type) : Type := List (Entry α)

namespace Journal

/-- The accepted pieces with their flags. -/
def pieces (j : Journal α) : List (Window α × Bool) := j.filterMap Entry.piece?

/-- The events put to handlers, with the states there. -/
def notifications (j : Journal α) : List (Occurrence α × State α) := j.filterMap Entry.notification?

/-- The located groups with the scanned windows. -/
def groups (j : Journal α) : List (Window α × List (Occurrence α)) := j.filterMap Entry.group?

/-- The times at which handlers ended the run. -/
def stops (j : Journal α) : List α := j.filterMap Entry.stop?

end Journal

end Trajectory
