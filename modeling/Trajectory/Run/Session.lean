import Trajectory.Observer
import Trajectory.Run.Journal
import Trajectory.Stepper

/-!
What a run works with: the course it was given, and the session that changes while it goes on.
-/

namespace Trajectory

variable {ω α β : Type}

/-- What stays fixed during a run. -/
structure Course (ω α : Type) where
  equation : Equation ω α
  stepper : Stepper
  /-- The signed size of a step. -/
  h : α
  target : α
  forward : Bool
  budget : Nat

/-- What changes during a run. -/
structure Session (ω α : Type) where
  /-- The caller's state and the count of evaluations. -/
  tally : Tally ω
  /-- The watch on the event handlers. -/
  monitor : Monitor ω α
  observers : List (Observer ω α)
  /-- The number of accepted pieces. -/
  accepted : Nat
  /-- The entries of the journal, the latest first. -/
  latestEntries : List (Entry α)

namespace Session

/-- The journal of the run so far. -/
def journal (s : Session ω α) : Journal α := s.latestEntries.reverse

/-- A session in which nothing has happened. -/
def start (w : ω) (monitor : Monitor ω α) (observers : List (Observer ω α)) : Session ω α :=
  ⟨Tally.start w, monitor, observers, 0, []⟩

/-- Computes on the tally of a session. -/
def onTally (x : Effect (Tally ω) α β) : Effect (Session ω α) α β :=
  Effect.within Session.tally (fun tally s => { s with tally := tally }) x

/-- Runs a computation of the caller. -/
def outside (x : Effect ω α β) : Effect (Session ω α) α β := onTally (Tally.outside x)

/-- Computes on the monitor of a session. -/
def onMonitor (x : Effect (Monitor ω α × ω) α β) : Effect (Session ω α) α β :=
  Effect.within (fun s => (s.monitor, s.tally.world))
    (fun (m, w) s => { s with monitor := m, tally := { s.tally with world := w } }) x

/-- Computes on the observers of a session. -/
def onObservers (x : Effect (List (Observer ω α) × ω) α β) : Effect (Session ω α) α β :=
  Effect.within (fun s => (s.observers, s.tally.world))
    (fun (os, w) s => { s with observers := os, tally := { s.tally with world := w } }) x

/-- Adds an entry to the journal. -/
def note (e : Entry α) : Effect (Session ω α) α Unit :=
  modify fun s => { s with latestEntries := e :: s.latestEntries }

variable [Scalar α] [Spacing α]

/-- Accepts a piece and hands it to the observers, if the budget allows. -/
def dispatch (course : Course ω α) (piece : Window α) (last : Bool) :
    Effect (Session ω α) α Unit := do
  if course.budget ≤ (← get).accepted then
    throw (.stepsExhausted course.budget piece.start course.target)
  modify fun s => { s with accepted := s.accepted + 1 }
  note (.accepted piece last)
  onObservers (Effect.forEach (Observer.accept piece last))

end Session

end Trajectory
