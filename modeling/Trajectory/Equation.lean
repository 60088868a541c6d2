import Trajectory.Effect
import Trajectory.State

/-!
First-order systems `y' = f(t, y)`.

A right-hand side is a computation over the state `ω` of its caller: it may fail, count its calls or keep a
record. `Tally` is what calling it changes on the library's side, the number of calls begun above all.

A right-hand side may also be compiled. Compilation goes through its text once, for arguments that are not
numbers yet; whatever else the right-hand side does (`onCompile`) happens then. The compiled function computes a
value alone (`compiled`); it cannot look at its arguments, so a check of their values is not part of it.
-/

namespace Trajectory

variable {ω α β : Type}

/-- The right-hand side of a system. -/
structure Rate (ω α : Type) where
  /-- The derivative of the state at a time. -/
  eval : α → State α → Effect ω α (State α)
  /-- What one call does to the caller's state while it is being compiled. -/
  onCompile : Effect ω α Unit
  /-- What the compiled function computes. -/
  compiled : α → State α → Except (Error α) (State α)

/-- A system of equations: a right-hand side with its number of unknowns. -/
structure Equation (ω α : Type) extends Rate ω α where
  /-- The number of unknowns. -/
  dimension : Int
  label : String

/-- What evaluating a right-hand side changes. -/
structure Tally (ω : Type) where
  world : ω
  /-- The number of evaluations begun. -/
  evaluations : Nat
  /-- The shapes of state and derivative for which the stages of a step have been compiled. -/
  compiled : List (Shape × Shape)
deriving DecidableEq

namespace Tally

/-- A tally with nothing counted yet. -/
def start (w : ω) : Tally ω := ⟨w, 0, []⟩

/-- Runs a computation of the caller. -/
def outside (x : Effect ω α β) : Effect (Tally ω) α β :=
  Effect.within Tally.world (fun w s => { s with world := w }) x

/-- Counts an evaluation as begun. -/
def count : Effect (Tally ω) α Unit :=
  modify fun s => { s with evaluations := s.evaluations + 1 }

end Tally

namespace Rate

/-- Evaluates a right-hand side and counts the evaluation. -/
def call (f : Rate ω α) (t : α) (y : State α) : Effect (Tally ω) α (State α) := do
  Tally.count
  Tally.outside (f.eval t y)

/-- Evaluates a compiled right-hand side: the value alone, with no call made. -/
def compiledCall (f : Rate ω α) (t : α) (y : State α) : Effect (Tally ω) α (State α) :=
  liftM (f.compiled t y)

/-- Evaluates a right-hand side while it is being compiled: the call is made once more, on arguments without a
value, before the compiled function computes. -/
def compilingCall (f : Rate ω α) (t : α) (y : State α) : Effect (Tally ω) α (State α) := do
  Tally.count
  Tally.outside f.onCompile
  f.compiledCall t y

end Rate

namespace Equation

/-- The text that shows an equation. -/
def describe (e : Equation ω α) : String :=
  "FunctionEquation(" ++ e.label ++ ", dimension=" ++ toString e.dimension ++ ")"

end Equation

/-- What a caller may hand over as the system to solve. -/
inductive Source (ω α : Type) where
  | equation (e : Equation ω α)
  /-- A right-hand side alone; its number of unknowns is that of the initial state. -/
  | rate (f : Rate ω α) (label : String)
  /-- Something else, of a named kind. -/
  | other (kind : String)

namespace Source

/-- The system to solve for given initial data. -/
def toEquation (s : Source ω α) (y0 : State α) : Except (Error α) (Equation ω α) :=
  match s with
  | .equation e => .ok e
  | .rate f label => .ok { f with dimension := y0.size, label := label }
  | .other kind => .error (.notAnEquation kind)

end Source

/-- The right-hand side that something of a named kind makes if it is used as one: it cannot be called. -/
def Rate.uncallable (kind : String) : Rate ω α where
  eval _ _ := throw (.notCallable kind)
  onCompile := throw (.notCallable kind)
  compiled _ _ := .error (.notCallable kind)

end Trajectory
