import Mathlib.Tactic
import Trajectory.Proofs.Window

/-!
Parts of a step: windows that answer as the whole step does.

However often a window is cut and narrowed, what it answers behind its start is the answer of the
step (`Part.stateAt`). At its start it answers with a stored state, which no later piece is asked
for.
-/

namespace Trajectory.Window

variable [Spacing Rat] {forward : Bool} {s : Step Rat} {w v : Window Rat} {t : Rat} {y : State Rat}

theorem slack_nonneg (gaps : ∀ x : Rat, 0 ≤ Spacing.ulp x) (w : Window Rat) : 0 ≤ w.slack := by
  rw [slack, Scalar.abs_rat]
  have unit := gaps (Scalar.larger (Scalar.abs w.bounds.1) (Scalar.abs w.bounds.2))
  have share : 0 ≤ softSlack * |w.step.h| := mul_nonneg (by norm_num [softSlack]) (abs_nonneg _)
  linarith

/-- A time inside a window may be queried, if the rounding unit is not negative. -/
theorem check_inside (gaps : ∀ x : Rat, 0 ≤ Spacing.ulp x) (begun : NotAfter forward w.start t)
    (reached : NotAfter forward t w.stop) : w.check t = .ok () := by
  have slack := slack_nonneg gaps w
  have inside : w.bounds.1 ≤ t ∧ t ≤ w.bounds.2 := by
    rw [bounds]
    cases forward with
    | true =>
      have order : ¬ w.stop < w.start := not_lt.mpr (le_trans (b := t) begun reached)
      rw [if_neg order]
      exact ⟨begun, reached⟩
    | false =>
      by_cases order : w.stop < w.start
      · rw [if_pos order]
        exact ⟨reached, begun⟩
      · rw [if_neg order]
        exact ⟨(not_lt.mp order).trans reached, le_trans (b := w.start) begun (not_lt.mp order)⟩
  have admitted : w.admits t = true := by
    rw [admits, Bool.and_eq_true, decide_eq_true_eq, decide_eq_true_eq]
    exact ⟨by linarith [inside.1], by linarith [inside.2]⟩
  rw [check, if_pos admitted]

/-- A window answers at its end with the state there. -/
theorem stateAt_stop_ok (gaps : ∀ x : Rat, 0 ≤ Spacing.ulp x) (ahead : Precedes forward w.start w.stop) :
    w.stateAt w.stop = .ok w.yStop := by
  have inside := check_inside gaps ahead.notAfter NotAfter.refl
  have behind : ¬ (w.stop == w.start) = true := fun same => ahead.ne (beq_iff_eq.mp same).symm
  rw [stateAt, except_bind_ok]
  exact ⟨(), inside, (if_neg behind).trans (if_pos (beq_self_eq_true w.stop))⟩

/-- Between its bounds a window answers with the cubic of its step. -/
theorem stateAt_between (behind : t ≠ w.start) (before : t ≠ w.stop) : w.stateAt t = .ok y ↔
    w.check t = .ok () ∧ ∃ θ, w.step.position t = .ok θ ∧ w.step.requireCubic = .ok () ∧ w.step.cubic θ = y := by
  have start : ¬ (t == w.start) = true := fun same => behind (beq_iff_eq.mp same)
  have stop : ¬ (t == w.stop) = true := fun same => before (beq_iff_eq.mp same)
  rw [stateAt, except_bind_ok, if_neg start, if_neg stop]
  constructor
  · rintro ⟨_, checked, answered⟩
    obtain ⟨θ, position, answered⟩ := except_bind_ok.mp answered
    obtain ⟨_, fits, answered⟩ := except_bind_ok.mp answered
    cases answered
    exact ⟨checked, θ, position, fits, rfl⟩
  · rintro ⟨checked, θ, position, fits, rfl⟩
    exact ⟨(), checked, except_bind_ok.mpr ⟨θ, position, except_bind_ok.mpr ⟨(), fits, rfl⟩⟩⟩

/-- A window on a step whose states and derivatives fit together answers at all times that may be queried. -/
theorem stateAt_of_check (long : w.step.h ≠ 0) (fits : w.step.requireCubic = .ok ()) (checked : w.check t = .ok ()) :
    ∃ y, w.stateAt t = .ok y := by
  by_cases start : t = w.start
  · refine ⟨w.yStart, ?_⟩
    rw [stateAt, except_bind_ok]
    exact ⟨(), checked, if_pos (beq_iff_eq.mpr start)⟩
  by_cases stop : t = w.stop
  · refine ⟨w.yStop, ?_⟩
    rw [stateAt, except_bind_ok]
    exact ⟨(), checked, (if_neg fun same => start (beq_iff_eq.mp same)).trans (if_pos (beq_iff_eq.mpr stop))⟩
  have place : w.step.position t = .ok ((t - w.step.t) / w.step.h) := by
    simp [Step.position, quotient, long]
  exact ⟨_, (stateAt_between start stop).mpr ⟨checked, _, place, fits, rfl⟩⟩

theorem stateAt_ok (gaps : ∀ x : Rat, 0 ≤ Spacing.ulp x) (long : w.step.h ≠ 0) (fits : w.step.requireCubic = .ok ())
    (begun : NotAfter forward w.start t) (reached : NotAfter forward t w.stop) : ∃ y, w.stateAt t = .ok y :=
  stateAt_of_check long fits (check_inside gaps begun reached)

/-- A window on a part of a step, which answers at its end as the step does. -/
structure Part (forward : Bool) (s : Step Rat) (w : Window Rat) : Prop where
  step : w.step = s
  begun : NotAfter forward s.t w.start
  ahead : Precedes forward w.start w.stop
  reached : NotAfter forward w.stop s.tNext
  yStop : (ofStep s).stateAt w.stop = .ok w.yStop

theorem Part.ahead_step (part : w.Part forward s) : Precedes forward s.t s.tNext :=
  (part.begun.trans_precedes part.ahead).trans_notAfter part.reached

theorem part_ofStep (gaps : ∀ x : Rat, 0 ≤ Spacing.ulp x) (ahead : Precedes forward s.t s.tNext) :
    (ofStep s).Part forward s :=
  ⟨rfl, .refl, ahead, .refl, stateAt_stop_ok gaps (w := ofStep s) ahead⟩

/-- Behind its start a part of a step answers as the step does. -/
theorem Part.stateAt (gaps : ∀ x : Rat, 0 ≤ Spacing.ulp x) (part : w.Part forward s)
    (behind : Precedes forward w.start t) (reached : NotAfter forward t w.stop) (answered : w.stateAt t = .ok y) :
    (ofStep s).stateAt t = .ok y := by
  by_cases last : t = w.stop
  · subst last
    rw [stateAt_stop part.ahead.ne answered]
    exact part.yStop
  · obtain ⟨_, θ, position, fits, cubic⟩ := (stateAt_between behind.ne.symm last).mp answered
    rw [part.step] at position fits cubic
    have begun : Precedes forward s.t t := part.begun.trans_precedes behind
    have before : Precedes forward t s.tNext := (reached.precedes_of_ne last).trans_notAfter part.reached
    have inside : (ofStep s).check t = .ok () := check_inside gaps (w := ofStep s) begun.notAfter before.notAfter
    exact (stateAt_between (w := ofStep s) begun.ne.symm before.ne).mpr ⟨inside, θ, position, fits, cubic⟩

theorem Part.truncate (gaps : ∀ x : Rat, 0 ≤ Spacing.ulp x) (part : w.Part forward s)
    (behind : Precedes forward w.start t) (reached : NotAfter forward t w.stop) (cut : w.truncate t = .ok v) :
    v.Part forward s := by
  obtain ⟨step, start, stop, _, yStop⟩ := truncate_ok cut
  refine ⟨step.trans part.step, start ▸ part.begun, ?_, ?_, ?_⟩
  · rw [start, stop]
    exact behind
  · rw [stop]
    exact reached.trans part.reached
  · rw [stop]
    exact part.stateAt gaps behind reached yStop

theorem Part.rest (gaps : ∀ x : Rat, 0 ≤ Spacing.ulp x) (part : w.Part forward s)
    (behind : NotAfter forward w.start t) (before : Precedes forward t w.stop) (left : w.restrict t w.stop = .ok v) :
    v.Part forward s := by
  obtain ⟨step, start, stop, _, yStop⟩ := restrict_ok left
  refine ⟨step.trans part.step, ?_, ?_, ?_, ?_⟩
  · rw [start]
    exact part.begun.trans behind
  · rw [start, stop]
    exact before
  · rw [stop]
    exact part.reached
  · rw [stop]
    exact part.stateAt gaps part.ahead .refl yStop

theorem Part.yStop_eq (part : w.Part forward s) (ahead : Precedes forward s.t s.tNext) (last : w.stop = s.tNext) :
    w.yStop = s.yNext := by
  have answered := part.yStop
  rw [last] at answered
  exact stateAt_stop (w := ofStep s) ahead.ne answered

end Trajectory.Window
