import Mathlib.Tactic
import Mathlib.Algebra.Polynomial.Derivative
import Mathlib.Algebra.Polynomial.Roots
import Trajectory.Proofs.Narrowing
import Trajectory.Proofs.Sized

/-!
The dense output of a step as a curve.

A curve is an array of polynomials of time, one for each entry of a state. There is one curve of
degree three at most that takes the states of a step at its two ends and has the derivatives of the
step there (`Step.interpolates_curve`, `Step.Interpolates.unique`). The formulas of the dense output
evaluate it at every time, inside the step or not (`Step.Interpolates.cubic`,
`Step.Interpolates.cubicRate`), and the states that a window stores at its bounds are points of it
(`Window.Along`).
-/

namespace Trajectory

open Polynomial

/-- A state for each time, whose entries are polynomials of time. -/
abbrev Curve : Type := Tensor (Polynomial Rat)

namespace Curve

variable {H K : Curve} {f g : Polynomial Rat → Rat}

/-- The state of what is read off the entries of a curve. -/
def read (H : Curve) (f : Polynomial Rat → Rat) : State Rat :=
  ⟨H.shape, H.entries.map f, by rw [List.length_map, H.length_entries]⟩

@[simp] theorem entries_read (H : Curve) (f : Polynomial Rat → Rat) : (H.read f).entries = H.entries.map f := rfl

/-- The point of a curve at a time. -/
noncomputable def value (H : Curve) (t : Rat) : State Rat := H.read (eval t)

/-- The curve of the derivatives with respect to time. -/
noncomputable def rate (H : Curve) : Curve := H.map derivative

theorem value_rate (H : Curve) (t : Rat) : H.rate.value t = H.read fun p => p.derivative.eval t := by
  refine Tensor.ext rfl ?_
  simp [value, rate]

theorem read_congr (same : ∀ p ∈ H.entries, f p = g p) : H.read f = H.read g :=
  Tensor.ext rfl (List.map_congr_left same)

theorem read_add (H : Curve) (f g : Polynomial Rat → Rat) : H.read f + H.read g = H.read fun p => f p + g p := by
  refine Tensor.ext (Tensor.shape_add rfl) ?_
  rw [Tensor.entries_add (x := H.read f) (y := H.read g) rfl]
  simp [List.zipWith_map, List.zipWith_self]

theorem read_sub (H : Curve) (f g : Polynomial Rat → Rat) : H.read f - H.read g = H.read fun p => f p - g p := by
  refine Tensor.ext (Tensor.shape_sub rfl) ?_
  rw [Tensor.entries_sub (x := H.read f) (y := H.read g) rfl]
  simp [List.zipWith_map, List.zipWith_self]

theorem smul_read (c : Rat) (H : Curve) (f : Polynomial Rat → Rat) : c * H.read f = H.read fun p => c * f p := by
  refine Tensor.ext rfl ?_
  simp

theorem read_div (c : Rat) (H : Curve) (f : Polynomial Rat → Rat) : H.read f / c = H.read fun p => f p / c := by
  refine Tensor.ext rfl ?_
  simp

/-- Curves of one shape that have the same points are the same. -/
theorem ext_value (shape : H.shape = K.shape) (same : ∀ t, H.value t = K.value t) : H = K := by
  have length : H.entries.length = K.entries.length := by rw [H.length_entries, K.length_entries, shape]
  refine Tensor.ext shape (List.ext_getElem length fun i first second => Polynomial.funext fun t => ?_)
  have points : H.entries.map (eval t) = K.entries.map (eval t) := congrArg Tensor.entries (same t)
  have point := congrArg (·[i]?) points
  simpa [first, second] using point

end Curve

/-! ## Cubics -/

section

variable {p : Polynomial Rat} {a b : Rat}

private theorem eval_of_natDegree_le (degree : p.natDegree ≤ 3) (t : Rat) :
    p.eval t = p.coeff 0 + p.coeff 1 * t + p.coeff 2 * t ^ 2 + p.coeff 3 * t ^ 3 := by
  rw [eval_eq_sum_range' (n := 4) (by omega)]
  simp [Finset.sum_range_succ]

private theorem eval_derivative_of_natDegree_le (degree : p.natDegree ≤ 3) (t : Rat) :
    p.derivative.eval t = p.coeff 1 + 2 * p.coeff 2 * t + 3 * p.coeff 3 * t ^ 2 := by
  have lower : p.derivative.natDegree < 3 := by
    have := natDegree_derivative_le p
    omega
  rw [eval_eq_sum_range' lower]
  simp only [Finset.sum_range_succ, Finset.sum_range_zero, coeff_derivative]
  push_cast
  ring

/-- A cubic is known everywhere from its values and derivatives at two times. -/
theorem eval_cubic (degree : p.natDegree ≤ 3) (a b θ : Rat) :
    (2 * θ ^ 3 - 3 * θ ^ 2 + 1) * p.eval a + (3 * θ ^ 2 - 2 * θ ^ 3) * p.eval b
      + (b - a) * ((θ ^ 3 - 2 * θ ^ 2 + θ) * p.derivative.eval a + (θ ^ 3 - θ ^ 2) * p.derivative.eval b)
      = p.eval (a + θ * (b - a)) := by
  simp only [eval_of_natDegree_le degree, eval_derivative_of_natDegree_le degree]
  ring

/-- The derivative of a cubic is known everywhere from its values and derivatives at two times. -/
theorem eval_cubicRate (degree : p.natDegree ≤ 3) (long : a ≠ b) (θ : Rat) :
    6 * θ * (θ - 1) * (p.eval a - p.eval b) / (b - a) + (θ * (3 * θ - 4) + 1) * p.derivative.eval a
      + θ * (3 * θ - 2) * p.derivative.eval b = p.derivative.eval (a + θ * (b - a)) := by
  have length : b - a ≠ 0 := sub_ne_zero.mpr long.symm
  simp only [eval_of_natDegree_le degree, eval_derivative_of_natDegree_le degree]
  field_simp
  ring

/-- The cubic with given values and derivatives at two times. -/
noncomputable def cubicThrough (a b y₀ y₁ m₀ m₁ : Rat) : Polynomial Rat :=
  C y₀ + C m₀ * (X - C a) + C (((y₁ - y₀) / (b - a) - m₀) / (b - a)) * (X - C a) ^ 2
    + C ((m₁ + m₀ - 2 * (y₁ - y₀) / (b - a)) / (b - a) ^ 2) * (X - C a) ^ 2 * (X - C b)

theorem natDegree_cubicThrough (a b y₀ y₁ m₀ m₁ : Rat) : (cubicThrough a b y₀ y₁ m₀ m₁).natDegree ≤ 3 := by
  unfold cubicThrough
  compute_degree

theorem cubicThrough_ends (long : a ≠ b) (y₀ y₁ m₀ m₁ : Rat) :
    (cubicThrough a b y₀ y₁ m₀ m₁).eval a = y₀ ∧ (cubicThrough a b y₀ y₁ m₀ m₁).eval b = y₁ ∧
      (cubicThrough a b y₀ y₁ m₀ m₁).derivative.eval a = m₀ ∧
      (cubicThrough a b y₀ y₁ m₀ m₁).derivative.eval b = m₁ := by
  have length : b - a ≠ 0 := sub_ne_zero.mpr long.symm
  have slope (t : Rat) : (cubicThrough a b y₀ y₁ m₀ m₁).derivative.eval t
      = m₀ + ((y₁ - y₀) / (b - a) - m₀) / (b - a) * (2 * (t - a))
        + (m₁ + m₀ - 2 * (y₁ - y₀) / (b - a)) / (b - a) ^ 2 * (2 * (t - a) * (t - b) + (t - a) ^ 2) := by
    simp [cubicThrough, derivative_pow]
    ring
  refine ⟨by simp [cubicThrough], ?_, ?_, ?_⟩
  · simp only [cubicThrough, eval_add, eval_mul, eval_C, eval_sub, eval_X, eval_pow]
    field_simp
    ring
  · rw [slope]
    ring
  · rw [slope]
    field_simp
    ring

end

/-! ## The curve of a step -/

/-- A curve of degree three at most that has the states of a step at its ends, and its derivatives there. -/
structure Step.Interpolates (s : Step Rat) (H : Curve) : Prop where
  degree : ∀ p ∈ H.entries, p.natDegree ≤ 3
  y : s.y = H.value s.t
  yNext : s.yNext = H.value s.tNext
  yp : s.yp = H.rate.value s.t
  ypNext : s.ypNext = H.rate.value s.tNext

namespace Step

variable {s : Step Rat} {H K : Curve} {shape : Shape} {t : Rat}

theorem Interpolates.sized (through : s.Interpolates H) : s.Sized H.shape :=
  ⟨through.y ▸ rfl, through.yNext ▸ rfl, through.yp ▸ rfl, through.ypNext ▸ rfl⟩

private theorem place (long : s.t ≠ s.tNext) (t : Rat) : s.t + (t - s.t) / s.h * (s.tNext - s.t) = t := by
  have length : s.tNext - s.t ≠ 0 := sub_ne_zero.mpr long.symm
  rw [h]
  field_simp
  ring

/-- The formula of the dense output gives the points of the curve. -/
theorem Interpolates.cubic (through : s.Interpolates H) (long : s.t ≠ s.tNext) (t : Rat) :
    s.cubic ((t - s.t) / s.h) = H.value t := by
  rw [Step.cubic, through.y, through.yNext, through.yp, through.ypNext, Curve.value_rate, Curve.value_rate]
  simp only [Curve.value, Curve.smul_read, Curve.read_add]
  refine Curve.read_congr fun p mem => ?_
  have known := eval_cubic (through.degree p mem) s.t s.tNext ((t - s.t) / s.h)
  rw [place long] at known
  rw [← known, ← h]
  norm_num
  ring

/-- The formula of the dense output's derivative gives the points of the curve's derivative. -/
theorem Interpolates.cubicRate (through : s.Interpolates H) (long : s.t ≠ s.tNext) (t : Rat) :
    s.cubicRate ((t - s.t) / s.h) = H.rate.value t := by
  rw [Step.cubicRate, through.y, through.yNext, through.yp, through.ypNext, Curve.value_rate, Curve.value_rate,
    Curve.value_rate]
  simp only [Curve.value, Curve.smul_read, Curve.read_add, Curve.read_sub, Curve.read_div]
  refine Curve.read_congr fun p mem => ?_
  have known := eval_cubicRate (through.degree p mem) long ((t - s.t) / s.h)
  rw [place long] at known
  rw [← known, ← h]
  norm_num

/-- A step has one curve at most, because its formula gives all points of it. -/
theorem Interpolates.unique (first : s.Interpolates H) (second : s.Interpolates K) (long : s.t ≠ s.tNext) : H = K :=
  Curve.ext_value (first.sized.y.symm.trans second.sized.y)
    fun t => (first.cubic long t).symm.trans (second.cubic long t)

private theorem map_getD {y : State Rat} {n : Nat} (size : y.entries.length = n) :
    (List.range n).map (fun i => y.entries.getD i 0) = y.entries := by
  refine List.ext_getElem (by simp [size]) fun i first second => ?_
  simp [List.getD_eq_getElem?_getD, second]

/-- The curve of the cubics through the entries of a step. -/
noncomputable def curve (s : Step Rat) : Curve :=
  Tensor.tabulate s.y.shape fun i => cubicThrough s.t s.tNext (s.y.entries.getD i 0) (s.yNext.entries.getD i 0)
    (s.yp.entries.getD i 0) (s.ypNext.entries.getD i 0)

private theorem read_curve {f : Polynomial Rat → Rat} {y : State Rat} (same : y.shape = s.y.shape)
    (entry : ∀ i, f (cubicThrough s.t s.tNext (s.y.entries.getD i 0) (s.yNext.entries.getD i 0)
      (s.yp.entries.getD i 0) (s.ypNext.entries.getD i 0)) = y.entries.getD i 0) : y = s.curve.read f := by
  refine Tensor.ext same ?_
  rw [← map_getD (y.length_entries.trans (congrArg Shape.size same)), Curve.entries_read,
    curve, Tensor.entries_tabulate, List.map_map]
  exact List.map_congr_left fun i _ => (entry i).symm

/-- A step whose states and derivatives have one shape has a curve. -/
theorem interpolates_curve (sized : s.Sized shape) (long : s.t ≠ s.tNext) : s.Interpolates s.curve := by
  have ends (i : Nat) := cubicThrough_ends long (s.y.entries.getD i 0) (s.yNext.entries.getD i 0)
    (s.yp.entries.getD i 0) (s.ypNext.entries.getD i 0)
  have same {y : State Rat} (shaped : y.shape = shape) : y.shape = s.y.shape := shaped.trans sized.y.symm
  refine ⟨?_, read_curve rfl fun i => (ends i).1, read_curve (same sized.yNext) fun i => (ends i).2.1, ?_, ?_⟩
  · intro q mem
    obtain ⟨i, _, rfl⟩ := List.mem_map.mp mem
    exact natDegree_cubicThrough ..
  · rw [Curve.value_rate]
    exact read_curve (same sized.yp) fun i => (ends i).2.2.1
  · rw [Curve.value_rate]
    exact read_curve (same sized.ypNext) fun i => (ends i).2.2.2

/-- A step along the cube of time. -/
def cube : Step Rat := ⟨1, .ofList [1], 2, .ofList [8], .ofList [3], .ofList [12]⟩

theorem sized_cube : cube.Sized [1] := ⟨rfl, rfl, rfl, rfl⟩

theorem interpolates_cube : cube.Interpolates (.ofList [X ^ 3]) := by
  refine ⟨by simp, ?_, ?_, ?_, ?_⟩
  all_goals
    refine Tensor.ext rfl ?_
    norm_num [cube, Curve.value, Curve.rate]

end Step

/-! ## Windows along the curve -/

namespace Window

variable [Spacing Rat] {s : Step Rat} {H : Curve} {v w : Window Rat} {demand : Narrowing} {t : Rat} {y : State Rat}

/-- A window on a step that has points of the step's curve at its bounds. -/
structure Along (s : Step Rat) (H : Curve) (w : Window Rat) : Prop where
  step : w.step = s
  yStart : w.yStart = H.value w.start
  yStop : w.yStop = H.value w.stop

omit [Spacing Rat] in
theorem along_ofStep (through : s.Interpolates H) : (ofStep s).Along s H := ⟨rfl, through.y, through.yNext⟩

/-- A window along a curve answers with the points of the curve. -/
theorem Along.stateAt (along : w.Along s H) (through : s.Interpolates H) (long : s.t ≠ s.tNext)
    (admitted : w.admits t = true) : w.stateAt t = .ok (H.value t) := by
  have length : s.h ≠ 0 := sub_ne_zero.mpr long.symm
  have checked : w.check t = .ok () := if_pos admitted
  have place : w.step.position t = .ok ((t - s.t) / s.h) := by
    simp [Step.position, quotient, along.step, length]
  have fits : w.step.requireCubic = .ok () := along.step ▸ through.sized.requireCubic_ok
  rw [Window.stateAt, checked]
  by_cases start : t = w.start
  · subst start
    exact (if_pos (beq_self_eq_true _)).trans (congrArg Except.ok along.yStart)
  by_cases stop : t = w.stop
  · subst stop
    exact (if_neg (by simpa using start)).trans ((if_pos (beq_self_eq_true _)).trans (congrArg Except.ok along.yStop))
  refine (if_neg (by simpa using start)).trans ((if_neg (by simpa using stop)).trans ?_)
  rw [place, fits, along.step, ← through.cubic long t]
  rfl

theorem Along.derivativeAt (along : w.Along s H) (through : s.Interpolates H) (long : s.t ≠ s.tNext)
    (admitted : w.admits t = true) : w.derivativeAt t = .ok (H.rate.value t) := by
  have length : s.h ≠ 0 := sub_ne_zero.mpr long.symm
  have checked : w.check t = .ok () := if_pos admitted
  have place : w.step.position t = .ok ((t - s.t) / s.h) := by
    simp [Step.position, quotient, along.step, length]
  have fits : w.step.requireCubicRate = .ok () := by
    have sized := through.sized
    rw [along.step]
    exact requireFit_of_shape (s := H.shape) (by simp [sized.y, sized.yNext, sized.yp, sized.ypNext])
  rw [Window.derivativeAt, checked, place, fits, along.step, ← through.cubicRate long t]
  rfl

/-- Narrowing stays on the curve: the new bounds are points that the wider window answers. -/
theorem Along.narrow (along : w.Along s H) (through : s.Interpolates H) (long : s.t ≠ s.tNext)
    (narrowed : w.narrow demand = .ok v) : v.Along s H := by
  have point {t : Rat} {y : State Rat} (answered : w.stateAt t = .ok y) : y = H.value t := by
    have admitted : w.admits t = true := admits_iff.mpr (stateAt_near answered)
    rw [along.stateAt through long admitted] at answered
    exact (Except.ok.inj answered).symm
  obtain ⟨step, yStart, yStop⟩ := narrow_ok narrowed
  exact ⟨step.trans along.step, point yStart, point yStop⟩

/-- However it has been narrowed, a window on a step answers with the one cubic that the step
determines, and with its derivative. -/
theorem narrowAll_curve {shape : Shape} (s : Step Rat) (sized : s.Sized shape) (long : s.t ≠ s.tNext) :
    ∃ H, s.Interpolates H ∧ (∀ K, s.Interpolates K → K = H) ∧
      ∀ demands w, (ofStep s).narrowAll demands = .ok w →
        w.yStart = H.value w.start ∧ w.yStop = H.value w.stop ∧
        ∀ t, w.admits t = true → w.stateAt t = .ok (H.value t) ∧ w.derivativeAt t = .ok (H.rate.value t) := by
  have through := s.interpolates_curve sized long
  refine ⟨s.curve, through, fun K other => other.unique through long, fun demands w narrowed => ?_⟩
  have along : w.Along s s.curve := narrowAll_induct (fun _ _ _ along first => along.narrow through long first)
    (along_ofStep through) narrowed
  exact ⟨along.yStart, along.yStop,
    fun t admitted => ⟨along.stateAt through long admitted, along.derivativeAt through long admitted⟩⟩

omit [Spacing Rat] in
theorem narrowAll_curve_cube :
    letI := Spacing.gapless
    Step.cube.Sized [1] ∧ Step.cube.t ≠ Step.cube.tNext ∧
      ∃ w, (ofStep Step.cube).narrowAll [.restrict (5 / 4) (7 / 4), .truncate (3 / 2)] = .ok w ∧
        w.yStart = .ofList [125 / 64] ∧ w.yStop = .ofList [27 / 8] ∧
        ∀ t, w.admits t = true →
          w.stateAt t = .ok (.ofList [t ^ 3]) ∧ w.derivativeAt t = .ok (.ofList [3 * t ^ 2]) := by
  let := Spacing.gapless
  obtain ⟨H, _, unique, answers⟩ := narrowAll_curve Step.cube Step.sized_cube (by decide)
  have narrowed : (ofStep Step.cube).narrowAll [.restrict (5 / 4) (7 / 4), .truncate (3 / 2)]
      = .ok ⟨Step.cube, 5 / 4, 3 / 2, .ofList [125 / 64], .ofList [27 / 8]⟩ := by decide +kernel
  refine ⟨Step.sized_cube, by decide, _, narrowed, rfl, rfl, fun t admitted => ?_⟩
  obtain ⟨_, _, points⟩ := answers _ _ narrowed
  obtain ⟨state, rate⟩ := points t admitted
  rw [← unique _ Step.interpolates_cube] at state rate
  rw [state, rate, Curve.value_rate]
  constructor
  · refine congrArg Except.ok (Tensor.ext rfl ?_)
    simp [Curve.value]
  · refine congrArg Except.ok (Tensor.ext rfl ?_)
    norm_num

end Window

end Trajectory
