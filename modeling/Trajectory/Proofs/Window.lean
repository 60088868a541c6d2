import Mathlib.Tactic
import Trajectory.Proofs.Exact
import Trajectory.Proofs.Outcome
import Trajectory.Window

/-!
Windows that are narrowed: the step stays, the bounds are the demanded ones, and the states at the
bounds are those that the wider window has there.
-/

namespace Trajectory.Window

/-- A narrowed window answers at its bounds as the wider one did. -/
theorem restrict_ok {α : Type} [Scalar α] [Spacing α] {w v : Window α} {start stop : α} (narrowed : w.restrict start stop = .ok v) :
    v.step = w.step ∧ v.start = start ∧ v.stop = stop ∧ w.stateAt start = .ok v.yStart ∧
      w.stateAt stop = .ok v.yStop := by
  rw [restrict, except_bind_ok] at narrowed
  obtain ⟨_, _, narrowed⟩ := narrowed
  rw [except_bind_ok] at narrowed
  obtain ⟨_, _, narrowed⟩ := narrowed
  split at narrowed
  · cases narrowed
  · rw [except_bind_ok] at narrowed
    obtain ⟨yStart, left, narrowed⟩ := narrowed
    rw [except_bind_ok] at narrowed
    obtain ⟨yStop, right, narrowed⟩ := narrowed
    cases narrowed
    exact ⟨rfl, rfl, rfl, left, right⟩

variable [Spacing Rat] {w v : Window Rat} {t start stop : Rat} {y : State Rat}

theorem stateAt_start (answered : w.stateAt w.start = .ok y) : y = w.yStart := by
  have same : (w.start == w.start) = true := beq_self_eq_true w.start
  rw [stateAt, except_bind_ok] at answered
  obtain ⟨_, _, answered⟩ := answered
  rw [if_pos same] at answered
  cases answered
  rfl

theorem stateAt_stop (apart : w.start ≠ w.stop) (answered : w.stateAt w.stop = .ok y) : y = w.yStop := by
  have other : ¬ (w.stop == w.start) = true := fun h => apart (beq_iff_eq.mp h).symm
  have same : (w.stop == w.stop) = true := beq_self_eq_true w.stop
  rw [stateAt, except_bind_ok] at answered
  obtain ⟨_, _, answered⟩ := answered
  rw [if_neg other, if_pos same] at answered
  cases answered
  rfl

theorem truncate_ok (cut : w.truncate stop = .ok v) :
    v.step = w.step ∧ v.start = w.start ∧ v.stop = stop ∧ v.yStart = w.yStart ∧
      w.stateAt stop = .ok v.yStop := by
  obtain ⟨step, start, last, yStart, yStop⟩ := restrict_ok cut
  exact ⟨step, start, last, stateAt_start yStart, yStop⟩

end Trajectory.Window
