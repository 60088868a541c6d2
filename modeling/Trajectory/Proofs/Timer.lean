import Trajectory.Proofs.Engine

/-!
Timers: handlers that watch for a time, and engines that are given some.

Their switching function is the distance from the time. They are the smallest handlers with an
event, and together with a steady right-hand side they make runs that can be computed in full. A dip
is the next smallest: it has two events, and roots that a search does not find exactly.
-/

namespace Trajectory

/-- A handler whose event is a time. It acts in the same way at every event, and supplies one
state. -/
def SwitchingFunction.timer {ω : Type} (c : Rat) (action : Action) (next : State Rat) : SwitchingFunction ω Rat where
  g t _ := pure (t - c)
  decision := .always action
  reset := some fun _ _ => pure next
  direction := 0
  name := "timer"

/-- A switching function of time that decreases through zero at one time and increases through it at
another, with a handler that replaces the state at both. -/
def SwitchingFunction.dip (fall rise : Rat) : SwitchingFunction Unit Rat where
  g t _ := pure ((t - fall) * (t - rise))
  decision := .always .resetState
  reset := some fun _ _ => pure (.ofList [0])
  direction := 0
  name := "dip"

/-- One unknown that grows at a steady rate. -/
def Equation.steady : Equation Unit Rat where
  eval _ _ := pure (.ofList [1])
  onCompile := pure ()
  compiled _ _ := .ok (.ofList [1])
  dimension := 1
  label := "steady"

/-- An engine with a step size and some timers, each with its settings. -/
def Engine.timed (h : Rat) (timers : List (SwitchingFunction Unit Rat × Settings Rat)) : Engine Unit Rat where
  stepper := ⟨.euler, false⟩
  stepSize := h
  maxSteps := 100
  watches := timers.map fun (timer, settings) => (timer.toHandler, settings)
  observers := []
  status := none
  evaluations := 0
  accepted := 0
  journal := []

theorem Engine.usable_timed {h : Rat} {timers : List (SwitchingFunction Unit Rat × Settings Rat)} (nonzero : h ≠ 0)
    (valid : ∀ timer ∈ timers, timer.2.valid = true) : (Engine.timed h timers).Usable := by
  refine ⟨nonzero, fun watch mem => ?_⟩
  obtain ⟨timer, listed, rfl⟩ := List.mem_map.mp mem
  exact valid timer listed

/-- The step of a steady run from zero to one. -/
def Step.steady : Step Rat := ⟨0, .ofList [0], 1, .ofList [1], .ofList [1], .ofList [1]⟩

/-- A channel that waits for the events of a switching function from time zero on. -/
def Channel.awaiting (s : SwitchingFunction Unit Rat) (settings : Settings Rat) (gRef : Rat) : Channel Unit Rat :=
  ⟨s.toHandler, settings, 0, gRef, none, true⟩

/-- Rationals have no gaps. -/
@[reducible]
def Spacing.gapless : Spacing Rat := ⟨fun _ => 0⟩

end Trajectory
