import Trajectory.Bracket

/-!
How closely a switching function is watched.
-/

namespace Trajectory

variable {α : Type}

/-- The settings for one event handler. -/
structure Settings (α : Type) where
  /-- The longest interval between two samples of the switching function; none leaves a step in one piece. -/
  maxCheckInterval : Option α
  convergence : α
  maxIterations : Nat
  /-- How long after an event of the handler a new root counts as the same event; none stands for twice the
  tolerance. -/
  proximity : Option α
deriving DecidableEq

/-- Settings of which any may be left open. -/
structure SettingsOptions (α : Type) where
  /-- The longest interval between samples. -/
  maxCheckInterval : Option α
  convergence : Option α
  maxIterations : Option Int
  proximity : Option α
deriving DecidableEq

namespace SettingsOptions

/-- Everything left open. -/
def none : SettingsOptions α := ⟨.none, .none, .none, .none⟩

/-- Whether everything is left open. -/
def isNone (o : SettingsOptions α) : Bool :=
  o.maxCheckInterval.isNone && o.convergence.isNone && o.maxIterations.isNone && o.proximity.isNone

end SettingsOptions

namespace Settings

variable [Scalar α]

/-- Whether settings can be used: intervals, tolerance and budget are positive, the tolerance is finite, and the
re-trigger window is not negative. -/
def valid (s : Settings α) : Bool :=
  (match s.maxCheckInterval with
    | some interval => decide (0.0 < interval)
    | none => true) &&
  (decide (0.0 < s.convergence) && Scalar.isFinite s.convergence) &&
  decide (1 ≤ s.maxIterations) &&
  (match s.proximity with
    | some window => !decide (window < 0.0)
    | none => true)

/-- The settings that options describe, checked in the order of their fields. What is left open takes its
default: no sampling, a tolerance of a ten-billionth and a hundred evaluations. -/
def ofOptions (o : SettingsOptions α) : Except (Error α) (Settings α) := do
  if let some interval := o.maxCheckInterval then
    if ¬ 0.0 < interval then throw (.checkInterval interval)
  let convergence := o.convergence.getD 1e-10
  if !(decide (0.0 < convergence) && Scalar.isFinite convergence) then
    throw (.convergence convergence)
  let iterations := o.maxIterations.getD 100
  if iterations < 1 then throw (.eventBudget iterations)
  if let some window := o.proximity then
    if window < 0.0 then throw (.proximity window)
  return ⟨o.maxCheckInterval, convergence, iterations.toNat, o.proximity⟩

/-- How long after an event a new root counts as the same event. -/
def window (s : Settings α) : α := s.proximity.getD (2.0 * s.convergence)

/-- The root search that honours the settings. -/
def search (s : Settings α) : RootSearch α := ⟨s.convergence, s.maxIterations⟩

end Settings

end Trajectory
