import Trajectory.Scalar

/-!
Everything that can stop a computation of the library, as causes with the data that describe them. The wording
is a separate matter (`Trajectory.Error.Message`).
-/

namespace Trajectory

/-- Which quantity had the wrong number of entries. -/
inductive Quantity where
  | state
  | derivative
  /-- The state that an event handler supplies in place of the current one. -/
  | resetState
deriving DecidableEq

/-- The causes of failure. -/
inductive Error (α : Type) where
  /-- A step size is zero or not finite. -/
  | stepSize (h : α)
  /-- A negative step size is asked for in a run towards later times. -/
  | stepDirection (h : α)
  /-- The start and target times are too close to each other. -/
  | interval (start target : α)
  | timeBounds (start target : α)
  /-- A quantity has not the dimension of the equation. -/
  | dimension (what : Quantity) (expected : Int) (got : Nat)
  | stepBudget (budget : Int)
  | stepsExhausted (budget : Nat) (time target : α)
  | tolerance (tolerance : α)
  | searchBudget (budget : Int)
  /-- A root search starts from two points where the function has the same sign. -/
  | notBracketed (a fa b fb : α)
  /-- A root search used up its evaluations while its bracket was still too wide. -/
  | notIsolated (lower upper : α) (iterations : Nat)
  | outsideWindow (time start stop : α)
  /-- A window is to be narrowed to an interval that runs against the step. -/
  | reversedWindow (start stop : α)
  | checkInterval (interval : α)
  | convergence (convergence : α)
  | eventBudget (budget : Int)
  | proximity (proximity : α)
  /-- A handler is registered with complete settings and single options at once. -/
  | settingsTwice
  /-- The crossing direction of a switching function is none of the three known ones. -/
  | crossingDirection (direction : Int)
  /-- A switching function always resets the state but is given no reset. -/
  | resetMissing
  /-- A switching function is asked for a reset that it was never given. -/
  | noReset (name : String)
  | unknownAction (name : String)
  | gridSpacing (spacing : α)
  /-- Something that is no equation and cannot be called is given as the right-hand side. -/
  | notAnEquation (kind : String)
  | notCallable (kind : String)
  | noWindow
  /-- Something that has no dimension is given as the system of a run. -/
  | noDimension (kind : String)
  | sampleOutsideSpan
  | samplesUnordered
  | noSamples
  /-- A single time is requested, and not a sequence of times. -/
  | singleSample
  /-- The first of the requested times is not a single time. -/
  | ambiguousSample
  | noIncrement
  | divisionByZero
  | undefinedCount
  | infiniteCount
  | undefinedEstimate
  | infiniteEstimate
  /-- A power of a time is too large for the scalars. -/
  | powerRange
  | angleRange
  /-- Arrays with the same number of axes do not fit together. -/
  | extents
  /-- Arrays with different numbers of axes do not fit together. -/
  | axes
  | noEntry
  /-- An array is given where a number is needed. -/
  | notNumber
  | emptyNorm
  /-- A table is made of no rows, or of rows of different lengths. -/
  | table
  | noTable
  | handlerIndex (index : Nat)
  /-- A loop took more rounds than its input allows. -/
  | stalled
  /-- A function supplied by the caller failed. -/
  | raised (reason : String)
  /-- A function supplied by the caller aborted the program, which is not a failure. -/
  | aborted (reason : String)
deriving DecidableEq

/-- Whether an error is a failure, and does not abort the program. -/
def Error.isFailure {α : Type} : Error α → Bool
  | .aborted _ => false
  | _ => true

end Trajectory
