import Mathlib.Tactic
import Trajectory.Proofs.Part
import Trajectory.Proofs.Timer

/-!
Demands for narrower windows, one after the other.

A bound of a narrowed window may lie a slack beyond the window it is demanded of. The slack is that
of the current window, so a demand that reaches out of its window makes room for the next one: a
window is as far from the step as the slacks of the windows that were overreached add up to
(`Window.narrowAll_within`). One slack of the step is enough as long as this happens once at most,
and no distance is enough for all sequences of demands (`Window.narrowAll_reach`).
-/

namespace Trajectory

/-- A demand for a narrower window. -/
inductive Narrowing where
  | restrict (start stop : Rat)
  | truncate (stop : Rat)
deriving DecidableEq

namespace Window

/-- The time lies within a distance of a window. -/
def Near (w : Window Rat) (d t : Rat) : Prop := w.bounds.1 - d ≤ t ∧ t ≤ w.bounds.2 + d

/-- Both bounds of a window lie within a distance of another one. -/
def Within (v : Window Rat) (d : Rat) (w : Window Rat) : Prop := w.Near d v.start ∧ w.Near d v.stop

instance (w : Window Rat) (d t : Rat) : Decidable (w.Near d t) :=
  inferInstanceAs (Decidable (_ ∧ _))

instance (v : Window Rat) (d : Rat) (w : Window Rat) : Decidable (v.Within d w) :=
  inferInstanceAs (Decidable (_ ∧ _))

section

variable {u v w : Window Rat} {d e : Rat}

theorem bounds_eq (w : Window Rat) : w.bounds = (min w.start w.stop, max w.start w.stop) := by
  by_cases order : w.stop < w.start
  · rw [bounds, if_pos order, min_eq_right order.le, max_eq_left order.le]
  · have order' := not_lt.mp order
    rw [bounds, if_neg order, min_eq_left order', max_eq_right order']

theorem within_iff : v.Within d w ↔ w.bounds.1 - d ≤ v.bounds.1 ∧ v.bounds.2 ≤ w.bounds.2 + d := by
  rw [bounds_eq v, le_min_iff, max_le_iff, Within, Near, Near]
  exact and_and_and_comm

theorem Within.refl : w.Within 0 w := by
  rw [within_iff]
  exact ⟨by linarith, by linarith⟩

theorem Within.trans (first : v.Within d w) (second : u.Within e v) : u.Within (d + e) w := by
  rw [within_iff] at *
  exact ⟨by linarith [first.1, second.1], by linarith [first.2, second.2]⟩

theorem Within.mono (within : v.Within d w) (wider : d ≤ e) : v.Within e w := by
  rw [within_iff] at *
  exact ⟨by linarith [within.1], by linarith [within.2]⟩

end

variable [Spacing Rat] {v w : Window Rat} {s : Step Rat} {demand : Narrowing} {demands : List Narrowing}
  {t start stop : Rat} {y : State Rat}

/-- Answers a demand. -/
def narrow (w : Window Rat) : Narrowing → Except (Error Rat) (Window Rat)
  | .restrict start stop => w.restrict start stop
  | .truncate stop => w.truncate stop

/-- Answers some demands in turn, each with the window that the one before it has left. -/
def narrowAll (w : Window Rat) (demands : List Narrowing) : Except (Error Rat) (Window Rat) :=
  demands.foldlM narrow w

/-- The windows that some demands reach out of. -/
def overreached : Window Rat → List Narrowing → List (Window Rat)
  | _, [] => []
  | w, demand :: demands =>
    match w.narrow demand with
    | .error _ => []
    | .ok v => if v.Within 0 w then v.overreached demands else w :: v.overreached demands

theorem admits_iff : w.admits t = true ↔ w.Near w.slack t := by
  rw [admits, Bool.and_eq_true, decide_eq_true_eq, decide_eq_true_eq]
  rfl

theorem check_ok : w.check t = .ok () ↔ w.Near w.slack t := by
  rw [← admits_iff]
  by_cases admitted : w.admits t = true
  · exact iff_of_true (if_pos admitted) admitted
  · rw [check, if_neg admitted]
    exact iff_of_false (fun refused => by cases refused) admitted

theorem stateAt_near (answered : w.stateAt t = .ok y) : w.Near w.slack t := by
  rw [stateAt, except_bind_ok] at answered
  obtain ⟨_, checked, _⟩ := answered
  exact check_ok.mp checked

/-- A narrowed window has the bounds of the demand, and has there what the wider one answers. -/
theorem narrow_ok (narrowed : w.narrow demand = .ok v) :
    v.step = w.step ∧ w.stateAt v.start = .ok v.yStart ∧ w.stateAt v.stop = .ok v.yStop := by
  have restricted : ∃ start stop, w.restrict start stop = .ok v := by
    cases demand with
    | restrict start stop => exact ⟨start, stop, narrowed⟩
    | truncate stop => exact ⟨w.start, stop, narrowed⟩
  obtain ⟨start, stop, restricted⟩ := restricted
  obtain ⟨step, rfl, rfl, yStart, yStop⟩ := restrict_ok restricted
  exact ⟨step, yStart, yStop⟩

/-- What every answer keeps holds of the last one. -/
theorem narrowAll_induct {P : Window Rat → Prop}
    (keeps : ∀ w demand v, P w → w.narrow demand = .ok v → P v) (holds : P w)
    (narrowed : w.narrowAll demands = .ok v) : P v := by
  induction demands generalizing w with
  | nil =>
    cases narrowed
    exact holds
  | cons demand demands ih =>
    obtain ⟨u, first, rest⟩ := except_bind_ok.mp narrowed
    exact ih (keeps w demand u holds first) rest

/-- A demand reaches out of a window by the slack of that window at most. -/
theorem narrow_within (narrowed : w.narrow demand = .ok v) : v.Within w.slack w := by
  obtain ⟨_, yStart, yStop⟩ := narrow_ok narrowed
  exact ⟨stateAt_near yStart, stateAt_near yStop⟩

/-- Some demands reach as far as the slacks of the windows that were overreached add up to. -/
theorem narrowAll_within (narrowed : w.narrowAll demands = .ok v) :
    v.Within ((w.overreached demands).map slack).sum w := by
  induction demands generalizing w with
  | nil =>
    cases narrowed
    exact .refl
  | cons demand demands ih =>
    obtain ⟨u, first, rest⟩ := except_bind_ok.mp narrowed
    simp only [overreached, first]
    by_cases inside : u.Within 0 w
    · rw [if_pos inside]
      have reach := inside.trans (ih rest)
      rwa [zero_add] at reach
    · rw [if_neg inside, List.map_cons, List.sum_cons]
      exact (narrow_within first).trans (ih rest)

/-- A window inside another one on the same step has no greater slack. -/
theorem slack_le (grows : ∀ x y : Rat, 0 ≤ x → x ≤ y → Spacing.ulp x ≤ Spacing.ulp y) (step : v.step = w.step)
    (inside : v.Within 0 w) : v.slack ≤ w.slack := by
  obtain ⟨lower, upper⟩ := within_iff.mp inside
  rw [sub_zero] at lower
  rw [add_zero] at upper
  have order : v.bounds.1 ≤ v.bounds.2 := by
    rw [bounds_eq]
    exact min_le_max
  have magnitude : max |v.bounds.1| |v.bounds.2| ≤ max |w.bounds.1| |w.bounds.2| :=
    max_le (abs_le_max_abs_abs lower (order.trans upper)) (abs_le_max_abs_abs (lower.trans order) upper)
  have unit := grows _ _ ((abs_nonneg _).trans (le_max_left _ _)) magnitude
  rw [slack, slack, step]
  simp only [Scalar.abs_rat, Scalar.larger_rat]
  linarith

/-- As long as at most one demand reaches out of its window, all of them stay within one slack. -/
theorem narrowAll_within_slack (gaps : ∀ x : Rat, 0 ≤ Spacing.ulp x)
    (grows : ∀ x y : Rat, 0 ≤ x → x ≤ y → Spacing.ulp x ≤ Spacing.ulp y)
    (narrowed : w.narrowAll demands = .ok v) (once : (w.overreached demands).length ≤ 1) : v.Within w.slack w := by
  induction demands generalizing w with
  | nil =>
    cases narrowed
    exact Within.refl.mono (slack_nonneg gaps _)
  | cons demand demands ih =>
    obtain ⟨u, first, rest⟩ := except_bind_ok.mp narrowed
    simp only [overreached, first] at once
    by_cases inside : u.Within 0 w
    · rw [if_pos inside] at once
      have reach := inside.trans (ih rest once)
      rw [zero_add] at reach
      exact reach.mono (slack_le grows (narrow_ok first).1 inside)
    · -- this demand is the one that reaches out, so none behind it does
      rw [if_neg inside, List.length_cons] at once
      have within : u.overreached demands = [] := List.length_eq_zero_iff.mp (by omega)
      have tail := narrowAll_within rest
      rw [within, List.map_nil, List.sum_nil] at tail
      have reach := (narrow_within first).trans tail
      rwa [add_zero] at reach

theorem restrict_near (long : w.step.h ≠ 0) (fits : w.step.requireCubic = .ok ()) (left : w.Near w.slack start)
    (right : w.Near w.slack stop) (ahead : 0 ≤ (stop - start) * w.step.h) : ∃ v, w.restrict start stop = .ok v := by
  obtain ⟨yStart, first⟩ := stateAt_of_check long fits (check_ok.mpr left)
  obtain ⟨yStop, last⟩ := stateAt_of_check long fits (check_ok.mpr right)
  have order : ¬ (stop - start) * (w.step.tNext - w.step.t) < 0.0 := by
    norm_num
    exact ahead
  refine ⟨{ w with start := start, stop := stop, yStart := yStart, yStop := yStop }, ?_⟩
  rw [restrict, check_ok.mpr left, check_ok.mpr right, first, last]
  exact if_neg order

/-- The window on a step can be widened at its start, one share of the step with each demand. -/
theorem narrowAll_outward (gaps : ∀ x : Rat, 0 ≤ Spacing.ulp x) (long : s.h ≠ 0) (fits : s.requireCubic = .ok ())
    (n : Nat) : ∃ demands v, (ofStep s).narrowAll demands = .ok v ∧ v.step = s ∧ v.stop = s.tNext ∧
      v.start = s.t - n * (softSlack * s.h) := by
  induction n with
  | zero => exact ⟨[], ofStep s, rfl, rfl, rfl, by simp [ofStep]⟩
  | succ n ih =>
    obtain ⟨demands, v, narrowed, step, stop, start⟩ := ih
    have share : (0 : Rat) < softSlack := by norm_num [softSlack]
    have slack : softSlack * |s.h| ≤ v.slack := by
      rw [Window.slack, Scalar.abs_rat, step]
      linarith [gaps (Scalar.larger (Scalar.abs v.bounds.1) (Scalar.abs v.bounds.2))]
    obtain ⟨back, ahead⟩ := abs_le.mp (abs_mul softSlack s.h ▸ (abs_of_pos share).symm ▸ slack)
    have left : v.Near v.slack (s.t - (n + 1 : Nat) * (softSlack * s.h)) := by
      have place : s.t - (n + 1 : Nat) * (softSlack * s.h) = v.start - softSlack * s.h := by
        rw [start]
        push_cast
        ring
      rw [place, Near, bounds_eq]
      exact ⟨by linarith [min_le_left v.start v.stop], by linarith [le_max_left v.start v.stop]⟩
    have right : v.Near v.slack s.tNext := by
      have := slack_nonneg gaps v
      rw [← stop, Near, bounds_eq]
      exact ⟨by linarith [min_le_right v.start v.stop], by linarith [le_max_right v.start v.stop]⟩
    have direction : 0 ≤ (s.tNext - (s.t - (n + 1 : Nat) * (softSlack * s.h))) * v.step.h := by
      have length : (s.tNext - (s.t - (n + 1 : Nat) * (softSlack * s.h))) * v.step.h
          = (1 + (n + 1 : Nat) * softSlack) * (s.h * s.h) := by
        rw [step, Step.h]
        ring
      rw [length]
      exact mul_nonneg (by positivity) (mul_self_nonneg s.h)
    obtain ⟨u, restricted⟩ := restrict_near (step.symm ▸ long) (step.symm ▸ fits) left right direction
    obtain ⟨step', start', stop', _⟩ := restrict_ok restricted
    refine ⟨demands ++ [.restrict (s.t - (n + 1 : Nat) * (softSlack * s.h)) s.tNext], u, ?_, step'.trans step, stop',
      start'⟩
    rw [narrowAll, List.foldlM_append, except_bind_ok]
    exact ⟨v, narrowed, except_bind_ok.mpr ⟨u, restricted, rfl⟩⟩

/-- How far some demands can take a window from its step: as far as the slacks of the windows that
were overreached add up to, one slack of the step if this happens once at most, and farther than any
given distance if it happens again and again. -/
theorem narrowAll_reach (gaps : ∀ x : Rat, 0 ≤ Spacing.ulp x)
    (grows : ∀ x y : Rat, 0 ≤ x → x ≤ y → Spacing.ulp x ≤ Spacing.ulp y) (s : Step Rat) (long : s.t ≠ s.tNext) :
    (∀ demands w, (ofStep s).narrowAll demands = .ok w →
      w.Within (((ofStep s).overreached demands).map slack).sum (ofStep s) ∧
      (((ofStep s).overreached demands).length ≤ 1 → w.Within (ofStep s).slack (ofStep s))) ∧
    (s.requireCubic = .ok () →
      ∀ d, ∃ demands w, (ofStep s).narrowAll demands = .ok w ∧ ¬ w.Within d (ofStep s)) := by
  refine ⟨fun demands w narrowed => ⟨narrowAll_within narrowed, narrowAll_within_slack gaps grows narrowed⟩, ?_⟩
  intro fits d
  have length : s.h ≠ 0 := sub_ne_zero.mpr long.symm
  have share : (0 : Rat) < softSlack := by norm_num [softSlack]
  have unit : 0 < softSlack * |s.h| := mul_pos share (abs_pos.mpr length)
  obtain ⟨n, far⟩ := exists_nat_gt (d / (softSlack * |s.h|))
  rw [div_lt_iff₀ unit] at far
  obtain ⟨demands, w, narrowed, _, _, start⟩ := narrowAll_outward gaps length fits n
  refine ⟨demands, w, narrowed, fun within => ?_⟩
  obtain ⟨lower, upper⟩ := within.1
  rw [bounds_eq, start] at lower upper
  simp only [ofStep] at lower upper
  rcases lt_or_gt_of_ne long with forward | backward
  · rw [min_eq_left forward.le] at lower
    rw [Step.h, abs_of_pos (sub_pos.mpr forward)] at far
    rw [Step.h] at lower
    linarith
  · rw [max_eq_left backward.le] at upper
    rw [Step.h, abs_of_neg (sub_neg.mpr backward)] at far
    rw [Step.h] at upper
    linarith

omit [Spacing Rat] in
theorem narrowAll_reach_steady :
    letI := Spacing.gapless
    (∀ x : Rat, 0 ≤ Spacing.ulp x) ∧ (∀ x y : Rat, 0 ≤ x → x ≤ y → Spacing.ulp x ≤ Spacing.ulp y) ∧
      Step.steady.t ≠ Step.steady.tNext ∧
      (∀ w, (ofStep Step.steady).narrowAll [.restrict (-1e-12) 1, .truncate (1 / 2)] = .ok w →
        w.Within (ofStep Step.steady).slack (ofStep Step.steady)) ∧
      ∃ demands w, (ofStep Step.steady).narrowAll demands = .ok w ∧ ¬ w.Within 1 (ofStep Step.steady) := by
  let := Spacing.gapless
  have reach := narrowAll_reach (fun _ => le_rfl) (fun _ _ _ _ => le_rfl) Step.steady (by decide)
  exact ⟨fun _ => le_rfl, fun _ _ _ _ => le_rfl, by decide,
    fun w narrowed => (reach.1 _ w narrowed).2 (by decide +kernel),
    reach.2 (by decide +kernel) 1⟩

omit [Spacing Rat] in
/-- One slack of the step does not bound what some demands reach: two that each reach out of their
window go beyond it. -/
theorem narrowAll_not_within_slack :
    letI := Spacing.gapless
    ¬ ∀ demands w, (ofStep Step.steady).narrowAll demands = .ok w →
      w.Within (ofStep Step.steady).slack (ofStep Step.steady) := by
  let := Spacing.gapless
  intro within
  have narrowed : (ofStep Step.steady).narrowAll [.restrict (-1e-12) 1, .restrict (-2e-12) 1]
      = .ok ⟨Step.steady, -2e-12, 1, .ofList [-2e-12], .ofList [1]⟩ := by decide +kernel
  have far : ¬ Within ⟨Step.steady, -2e-12, 1, .ofList [-2e-12], .ofList [1]⟩ (ofStep Step.steady).slack
      (ofStep Step.steady) := by decide +kernel
  exact far (within _ _ narrowed)

end Window

end Trajectory
