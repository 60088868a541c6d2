import Mathlib.Tactic
import Mathlib.Analysis.Calculus.Deriv.Prod
import Mathlib.Analysis.Real.Pi.Bounds
import Mathlib.Analysis.SpecialFunctions.ExpDeriv
import Mathlib.Analysis.SpecialFunctions.Trigonometric.Deriv
import Mathlib.Topology.Algebra.Module.ModuleTopology
import Trajectory.Proofs.Vector
import Trajectory.Reference.Catalogue

/-!
The closed-form solutions of the reference problems, over the real numbers.

The solution of a problem is a curve of vectors that begins with the initial state and has the derivatives that the
right-hand side gives it (`Problem.SolvedBy`). The curve of the bouncing oscillator is the circle `(sin t, cos t)`,
turned around where the sine is negative (`bouncing_of_sign`). It has a derivative wherever the sine has a sign, and
where the sine changes its sign a bounce leads from the limit before to the limit behind (`bouncing_bounces`). These
times, as far as the run goes, and the time at which it is stopped are the listed ones (`mem_eventTimes_iff`).
-/

namespace Trajectory

open Filter Topology Real Reference

variable {ω : Type} {n : Nat}

/-- A curve that is the solution of a problem, begins with its initial state, and at some times has the derivative that
its right-hand side gives it. -/
structure Problem.SolvedBy (p : Problem ω ℝ) (curve : ℝ → Fin n → ℝ) (times : Set ℝ) : Prop where
  traces : ∀ t, p.solutionAt t = .ok (.ofVec (curve t))
  begins : p.solutionAt p.t0 = .ok p.y0
  obeys : ∀ t ∈ times, ∃ slope, HasDerivAt curve slope t ∧ p.rateAt t (.ofVec (curve t)) = .ok (.ofVec slope)

/-- The reset of a handler leads from the limit of a curve before a time to the limit behind it. -/
def SwitchingFunction.Joins (s : SwitchingFunction ω ℝ) (curve : ℝ → Fin n → ℝ) (t : ℝ) : Prop :=
  ∃ before behind, Tendsto curve (𝓝[<] t) (𝓝 before) ∧ Tendsto curve (𝓝[>] t) (𝓝 behind) ∧
    ∀ w, (s.toHandler.resetState t (.ofVec before)).runFrom w = (.ok (.ofVec behind), w)

theorem hasDerivAt_pair {f g : ℝ → ℝ} {f' g' t : ℝ} (first : HasDerivAt f f' t) (second : HasDerivAt g g' t) :
    HasDerivAt (fun s => ![f s, g s]) ![f', g'] t :=
  hasDerivAt_pi.mpr (Fin.forall_fin_two.mpr ⟨first, second⟩)

theorem decay_solved (name : String) (tFinal : ℝ) :
    (decay name tFinal : Problem ω ℝ).SolvedBy (fun t => exp (-t) • ![1.0, 0.1]) Set.univ where
  traces t := by
    have elapsed : -(t - 0.0) = -t := by norm_num
    change Except.ok (exp (-(t - 0.0)) * Tensor.ofVec ![1.0, 0.1]) = _
    rw [Tensor.smul_ofVec_real, elapsed]
  begins := by
    have start : exp (-(0.0 - 0.0)) = 1 := by norm_num
    change Except.ok (exp (-(0.0 - 0.0)) * Tensor.ofVec ![1.0, 0.1]) = _
    rw [Tensor.smul_ofVec_real, start, one_smul]
    rfl
  obeys t _ := by
    refine ⟨_, (hasDerivAt_neg t).exp.smul_const _, ?_⟩
    change Except.ok (-Tensor.ofVec _) = _
    rw [Tensor.neg_ofVec_real, mul_neg_one, neg_smul]

theorem constantRate_solved : (constantRate : Problem ω ℝ).SolvedBy (fun t => ![t]) Set.univ := by
  have traces : ∀ t, (constantRate : Problem ω ℝ).solutionAt t = .ok (.ofVec ![t]) := by
    intro t
    have elapsed : 0.0 + (t - 0.0) = t := by norm_num
    change Except.ok (Tensor.ofVec ![0.0 + (t - 0.0)]) = _
    rw [elapsed]
  refine ⟨traces, traces 0.0, fun t _ => ⟨![1], ?_, ?_⟩⟩
  · exact hasDerivAt_pi.mpr (Fin.forall_fin_one.mpr (hasDerivAt_id t))
  · have unit : (1.0 : ℝ) = 1 := by norm_num
    change Except.ok (Tensor.ofVec ![1.0]) = _
    rw [unit]

theorem polynomialGrowth_solved :
    (polynomialGrowth : Problem ω ℝ).SolvedBy (fun t => exp (t ^ 4 / 4) • ![1.0]) Set.univ where
  traces t := by
    have elapsed : (t ^ 4 - 0.0 ^ 4) / 4.0 = t ^ 4 / 4 := by norm_num
    change Except.ok (exp ((t ^ 4 - 0.0 ^ 4) / 4.0) * Tensor.ofVec ![1.0]) = _
    rw [Tensor.smul_ofVec_real, elapsed]
  begins := by
    have start : exp ((0.0 ^ 4 - 0.0 ^ 4) / 4.0) = 1 := by norm_num
    change Except.ok (exp ((0.0 ^ 4 - 0.0 ^ 4) / 4.0) * Tensor.ofVec ![1.0]) = _
    rw [Tensor.smul_ofVec_real, start, one_smul]
    rfl
  obeys t _ := by
    have slope : HasDerivAt (fun s => s ^ 4 / 4) (t ^ 3) t := by
      refine ((hasDerivAt_pow 4 t).div_const 4).congr_deriv ?_
      norm_num
    refine ⟨_, slope.exp.smul_const _, ?_⟩
    change Except.ok (t ^ 3 * Tensor.ofVec _) = _
    rw [Tensor.smul_ofVec_real, smul_smul, mul_comm]

/-! ## Oscillators -/

/-- The unit circle, as the sine and the cosine of the time. -/
noncomputable def circle (t : ℝ) : Fin 2 → ℝ := ![sin t, cos t]

theorem oscillation_pair (a b : ℝ) : oscillation (Tensor.ofVec ![a, b]) = .ofVec ![b, -a] := Tensor.ext rfl rfl

theorem harmonicOscillator_solved :
    (harmonicOscillator : Problem ω ℝ).SolvedBy (fun t => ![cos t, -sin t]) Set.univ where
  traces t := rfl
  begins := by
    have unit : (1.0 : ℝ) = 1 := by norm_num
    have zero : (0.0 : ℝ) = 0 := by norm_num
    change Except.ok (Tensor.ofVec ![cos 0.0, -sin 0.0]) = Except.ok (Tensor.ofVec ![1.0, 0.0])
    rw [unit, zero, cos_zero, sin_zero, neg_zero]
  obeys t _ := by
    refine ⟨_, hasDerivAt_pair (hasDerivAt_cos t) (hasDerivAt_sin t).neg, ?_⟩
    change Except.ok (oscillation (Tensor.ofVec ![cos t, -sin t])) = _
    rw [oscillation_pair]

/-- The curve of the bouncing oscillator: the circle, turned around where the sine is negative. -/
noncomputable def bouncing (t : ℝ) : Fin 2 → ℝ := ![|sin t|, (if 0 ≤ sin t then 1 else -1) * cos t]

theorem solutionAt_bouncingSine (t : ℝ) : (bouncingSine : Problem ω ℝ).solutionAt t = .ok (.ofVec (bouncing t)) := by
  have zero : (0.0 : ℝ) = 0 := by norm_num
  have unit : (1.0 : ℝ) = 1 := by norm_num
  change Except.ok (Tensor.ofVec ![|sin t|, (if 0.0 ≤ sin t then 1.0 else -1.0) * cos t]) = _
  rw [zero, unit, bouncing]

/-- Where the sine has a sign, it tells which way the circle is turned. -/
theorem bouncing_of_sign {c t : ℝ} (unit : c = 1 ∨ c = -1) (along : 0 < c * sin t) : bouncing t = c • circle t := by
  rcases unit with rfl | rfl
  · have positive : 0 < sin t := by linarith
    simp [bouncing, circle, abs_of_pos positive, positive.le]
  · have negative : sin t < 0 := by linarith
    simp [bouncing, circle, abs_of_neg negative, not_le.mpr negative]

theorem continuous_circle : Continuous circle :=
  continuous_pi (Fin.forall_fin_two.mpr ⟨continuous_sin, continuous_cos⟩)

theorem oscillation_circle (c t : ℝ) :
    oscillation (Tensor.ofVec (c • circle t)) = .ofVec (c • ![cos t, -sin t]) := by
  have pair : c • circle t = ![c * sin t, c * cos t] := by simp [circle]
  rw [pair, oscillation_pair]
  simp

theorem bouncingSine_solved : (bouncingSine : Problem ω ℝ).SolvedBy bouncing {t | ∀ k : ℤ, t ≠ k * π} where
  traces := solutionAt_bouncingSine
  begins := by
    have three : (3.0 : ℝ) = 3 := by norm_num
    have positive : 0 < sin 3 := sin_pos_of_pos_of_lt_pi (by norm_num) pi_gt_three
    have start := bouncing_of_sign (.inl rfl) (by rwa [one_mul])
    rw [solutionAt_bouncingSine]
    change Except.ok (Tensor.ofVec (bouncing 3.0)) = .ok (Tensor.ofVec ![sin 3.0, cos 3.0])
    rw [three, start, one_smul, circle]
  obeys t apart := by
    have sign : sin t ≠ 0 := fun zero => by
      obtain ⟨k, same⟩ := sin_eq_zero_iff.mp zero
      exact apart k same.symm
    obtain ⟨c, unit, along⟩ : ∃ c : ℝ, (c = 1 ∨ c = -1) ∧ 0 < c * sin t := by
      rcases sign.lt_or_gt with negative | positive
      · exact ⟨-1, .inr rfl, by linarith⟩
      · exact ⟨1, .inl rfl, by linarith⟩
    have near : ∀ᶠ s in 𝓝 t, 0 < c * sin s := (continuous_sin.const_mul c).continuousAt.eventually (lt_mem_nhds along)
    refine ⟨c • ![cos t, -sin t], ?_, ?_⟩
    · refine HasDerivAt.congr_of_eventuallyEq ?_ (near.mono fun s => bouncing_of_sign unit)
      exact (hasDerivAt_pair (hasDerivAt_sin t) (hasDerivAt_cos t)).const_smul c
    · change Except.ok (oscillation (Tensor.ofVec (bouncing t))) = _
      rw [bouncing_of_sign unit along, oscillation_circle]

theorem bouncing_bounces (k : ℤ) : (bounce : SwitchingFunction ω ℝ).Joins bouncing (k * π) := by
  have zero : sin (k * π) = 0 := sin_int_mul_pi k
  have unit : cos (k * π) = 1 ∨ cos (k * π) = -1 := by
    apply mul_self_eq_one_iff.mp
    have one := sin_sq_add_cos_sq (k * π)
    rwa [zero, zero_pow two_ne_zero, zero_add, sq] at one
  have square : cos (k * π) * cos (k * π) = 1 := mul_self_eq_one_iff.mpr unit
  have shifted : ∀ s, cos (k * π) * sin s = sin (s - k * π) := by
    intro s
    rw [sin_sub, zero, mul_zero, sub_zero, mul_comm]
  have turns : Tendsto circle (𝓝 (k * π)) (𝓝 (circle (k * π))) := continuous_circle.tendsto _
  refine ⟨-cos (k * π) • circle (k * π), cos (k * π) • circle (k * π), ?_, ?_, fun w => ?_⟩
  · -- before the zero the sine has the sign opposite to the cosine, behind it the sign of the cosine
    have behind : ∀ᶠ s in 𝓝[<] (k * π), 0 < -cos (k * π) * sin s := by
      have within : k * π - π < k * π := by linarith [pi_pos]
      filter_upwards [self_mem_nhdsWithin, nhdsWithin_le_nhds (lt_mem_nhds within)] with s less near
      rw [neg_mul, shifted]
      have negative : sin (s - k * π) < 0 := sin_neg_of_neg_of_neg_pi_lt (sub_neg.mpr less) (by linarith)
      linarith
    have opposite : -cos (k * π) = 1 ∨ -cos (k * π) = -1 := by
      rcases unit with plus | minus
      · exact .inr (by rw [plus])
      · exact .inl (by rw [minus, neg_neg])
    refine ((turns.mono_left nhdsWithin_le_nhds).const_smul _).congr' ?_
    exact behind.mono fun s along => (bouncing_of_sign opposite along).symm
  · have ahead : ∀ᶠ s in 𝓝[>] (k * π), 0 < cos (k * π) * sin s := by
      have within : k * π < k * π + π := by linarith [pi_pos]
      filter_upwards [self_mem_nhdsWithin, nhdsWithin_le_nhds (gt_mem_nhds within)] with s more near
      rw [shifted]
      exact sin_pos_of_pos_of_lt_pi (sub_pos.mpr more) (by linarith)
    refine ((turns.mono_left nhdsWithin_le_nhds).const_smul _).congr' ?_
    exact ahead.mono fun s along => (bouncing_of_sign unit along).symm
  · change (Except.ok (-Tensor.ofVec _), w) = _
    rw [Tensor.neg_ofVec_real, neg_smul, neg_neg]

/-! ## Event times -/

/-- Some handler of the bouncing oscillator has the value zero where the sine has, and at the time of the stop. -/
theorem bouncing_vanishes_iff (w : ω) (t : ℝ) :
    (∃ s ∈ (bouncingSine : Problem ω ℝ).handlers, (s.toHandler.g t (.ofVec (bouncing t))).runFrom w = (.ok 0, w)) ↔
      sin t = 0 ∨ t = 12 := by
  have twelve : (12.0 : ℝ) = 12 := by norm_num
  have height : (bounce.toHandler.g t (.ofVec (bouncing t))).runFrom w = (.ok |sin t|, w) := rfl
  have ahead : (stopping.toHandler.g t (.ofVec (bouncing t))).runFrom w = (.ok (t - 12.0), w) := rfl
  have both : (bouncingSine : Problem ω ℝ).handlers = [bounce, stopping] := rfl
  simp [both, height, ahead, twelve, sub_eq_zero]

/-- The zeros of the sine between the start and the stop are the first three multiples of `π`. -/
theorem sin_eq_zero_between {t : ℝ} (start : 3 ≤ t) (stop : t ≤ 12) :
    sin t = 0 ↔ t = π ∨ t = 2 * π ∨ t = 3 * π := by
  have above : 3 < π := pi_gt_three
  constructor
  · intro zero
    obtain ⟨k, rfl⟩ := sin_eq_zero_iff.mp zero
    have positive : 0 < k := by
      by_contra less
      have small : (k : ℝ) ≤ 0 := mod_cast not_lt.mp less
      nlinarith
    have few : k < 4 := by
      by_contra more
      have large : (4 : ℝ) ≤ k := mod_cast not_lt.mp more
      nlinarith
    interval_cases k <;> simp
  · rintro (rfl | rfl | rfl)
    · exact sin_pi
    · exact sin_two_pi
    · exact sin_nat_mul_pi 3

/-- The listed event times of the bouncing oscillator are the times from the start to the stop at which one of its
handlers has the value zero on the solution. -/
theorem mem_eventTimes_iff (w : ω) (t : ℝ) :
    t ∈ (bouncingSine : Problem ω ℝ).eventTimes ↔ t ∈ Set.Icc (bouncingSine : Problem ω ℝ).t0 stopTime ∧
      ∃ s ∈ (bouncingSine : Problem ω ℝ).handlers,
        (s.toHandler.g t (.ofVec (bouncing t))).runFrom w = (.ok 0, w) := by
  have start : (bouncingSine : Problem ω ℝ).t0 = 3 := show (3.0 : ℝ) = 3 by norm_num
  have stop : (stopTime : ℝ) = 12 := show (12.0 : ℝ) = 12 by norm_num
  have listed : (bouncingSine : Problem ω ℝ).eventTimes = [π, 2 * π, 3 * π, 12] := by
    change [π, 2.0 * π, 3.0 * π, 12.0] = _
    norm_num
  rw [bouncing_vanishes_iff, start, stop, listed]
  simp only [List.mem_cons, List.not_mem_nil, or_false, Set.mem_Icc]
  constructor
  · have above : 3 < π := pi_gt_three
    have below : π < 4 := by linarith [pi_lt_d2]
    intro mem
    have within : 3 ≤ t ∧ t ≤ 12 := by
      rcases mem with rfl | rfl | rfl | rfl <;> constructor <;> linarith
    refine ⟨within, ?_⟩
    rwa [sin_eq_zero_between within.1 within.2, or_assoc, or_assoc]
  · rintro ⟨⟨after, before⟩, vanishes⟩
    rwa [sin_eq_zero_between after before, or_assoc, or_assoc] at vanishes

/-- The closed forms solve the reference problems, and the bounces and the listed event times of the bouncing oscillator
are those of its closed form. -/
theorem Reference.catalogue_solved :
    (∀ p ∈ (catalogue : List (Problem ω ℝ)), p ≠ bouncingSine →
      ∃ n, ∃ curve : ℝ → Fin n → ℝ, p.SolvedBy curve Set.univ) ∧
    (bouncingSine : Problem ω ℝ).SolvedBy bouncing {t | ∀ k : ℤ, t ≠ k * π} ∧
    (∀ k : ℤ, (bounce : SwitchingFunction ω ℝ).Joins bouncing (k * π)) ∧
    ∀ (w : ω) (t : ℝ), t ∈ (bouncingSine : Problem ω ℝ).eventTimes ↔
      t ∈ Set.Icc (bouncingSine : Problem ω ℝ).t0 stopTime ∧
        ∃ s ∈ (bouncingSine : Problem ω ℝ).handlers,
          (s.toHandler.g t (.ofVec (bouncing t))).runFrom w = (.ok 0, w) := by
  refine ⟨?_, bouncingSine_solved, bouncing_bounces, mem_eventTimes_iff⟩
  simp only [catalogue, List.forall_mem_cons]
  refine ⟨fun _ => ?_, fun _ => ?_, fun _ => ?_, fun _ => ?_, fun _ => ?_, fun other => absurd rfl other,
    fun _ mem => absurd mem List.not_mem_nil⟩
  · exact ⟨2, _, decay_solved _ _⟩
  · exact ⟨2, _, decay_solved _ _⟩
  · exact ⟨1, _, polynomialGrowth_solved⟩
  · exact ⟨1, _, constantRate_solved⟩
  · exact ⟨2, _, harmonicOscillator_solved⟩

theorem Reference.catalogue_solved_quarter :
    (∃ n, ∃ curve : ℝ → Fin n → ℝ, (polynomialGrowth : Problem Unit ℝ).SolvedBy curve Set.univ) ∧
    ∃ slope, HasDerivAt bouncing slope (π / 2) ∧
      (bouncingSine : Problem Unit ℝ).rateAt (π / 2) (.ofVec (bouncing (π / 2))) = .ok (.ofVec slope) := by
  refine ⟨catalogue_solved.1 _ (by simp [catalogue]) fun same => ?_, catalogue_solved.2.1.obeys _ fun k same => ?_⟩
  · have names : "PolynomialGrowth" = "BouncingSine" := congrArg Problem.name same
    exact absurd names (by decide)
  · have zero := sin_int_mul_pi k
    rw [← same, sin_pi_div_two] at zero
    exact one_ne_zero zero

end Trajectory
