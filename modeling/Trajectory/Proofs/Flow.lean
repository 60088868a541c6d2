import Mathlib.Tactic
import Mathlib.Analysis.Calculus.Deriv.Polynomial
import Mathlib.LinearAlgebra.Matrix.ToLin
import Mathlib.MeasureTheory.Integral.IntervalIntegral.FundThmCalculus
import Mathlib.RingTheory.PowerSeries.Exp
import Mathlib.RingTheory.PowerSeries.Trunc
import Trajectory.Proofs.Exact
import Trajectory.Proofs.Outcome
import Trajectory.Proofs.Purity
import Trajectory.Proofs.Vector
import Trajectory.Stepper

/-!
A step of a scheme as a map on vectors.

Along a right-hand side that answers with the values of a field, whether it is called or compiled (`Rate.Field`), a step
takes a vector to its image under the flow of the scheme (`Stepper.advance_flow`). The flow of a scheme of order `s`
along a linear field is the Taylor polynomial of degree `s` of the exponential (`Scheme.flow_linear`), and along a
polynomial field of degree less than `s` it adds the integral (`Scheme.flow_polynomial`).
-/

namespace Trajectory

open Effect Polynomial

variable {σ ω : Type} {n : Nat}

/-- A right-hand side that answers with the values of a field on vectors, whether it is called or compiled. -/
structure Rate.Field (rate : Rate ω Rat) (f : Rat → (Fin n → Rat) → Fin n → Rat) : Prop where
  eval : ∀ t v, (rate.eval t (.ofVec v)).Ends (· = .ofVec (f t v)) fun _ => True
  compiled : ∀ t v value, rate.compiled t (.ofVec v) = .ok value → value = .ofVec (f t v)

namespace Rate.Field

variable {rate : Rate ω Rat} {f : Rat → (Fin n → Rat) → Fin n → Rat}

theorem call (field : rate.Field f) (t : Rat) (v : Fin n → Rat) :
    (rate.call t (.ofVec v)).Ends (· = .ofVec (f t v)) fun _ => True :=
  ends_bind (ends_modify _) fun _ _ => ends_within (field.eval t v)

theorem compiledCall (field : rate.Field f) (t : Rat) (v : Fin n → Rat) :
    (rate.compiledCall t (.ofVec v)).Ends (· = .ofVec (f t v)) fun _ => True :=
  ends_lift (field.compiled t v) fun _ _ => trivial

end Rate.Field

namespace Scheme

/-- The vector at the end of a step of a scheme along a field. -/
def flow (scheme : Scheme) (f : Rat → (Fin n → Rat) → Fin n → Rat) (t h : Rat) (v : Fin n → Rat) : Fin n → Rat :=
  match scheme with
  | .euler => v + h • f t v
  | .midpoint => v + h • f (t + h / 2) (v + (h / 2) • f t v)
  | .rk4 =>
    let k1 := f t v
    let k2 := f (t + h / 2) (v + (h / 2) • k1)
    let k3 := f (t + h / 2) (v + (h / 2) • k2)
    let k4 := f (t + h) (v + h • k3)
    v + (h / 6) • (k1 + (2 : Rat) • k2 + (2 : Rat) • k3 + k4)
  | .abstract => v

variable {f : Rat → (Fin n → Rat) → Fin n → Rat}

/-- The increment of a scheme, with evaluations that answer with the values of a field. -/
theorem increment_flow {call : Rat → State Rat → Effect σ Rat (State Rat)}
    (answers : ∀ t v, (call t (.ofVec v)).Ends (· = .ofVec (f t v)) fun _ => True) (scheme : Scheme) (t h : Rat)
    (v : Fin n → Rat) : (scheme.increment call t (.ofVec v) h (.ofVec (f t v))).Ends
      (· = .ofVec (scheme.flow f t h v)) fun _ => True := by
  have fits : ∀ ys : List (State Rat), (liftM (requireFit ys) : Effect σ Rat Unit).Ends (fun _ => True) fun _ => True :=
    fun ys => ends_lift (fun _ _ => trivial) fun _ _ => trivial
  have half : (0.5 : Rat) * h = h / 2 := by ring
  cases scheme with
  | euler =>
    refine ends_bind (fits _) fun _ _ => ends_pure ?_
    simp [flow]
  | midpoint =>
    refine ends_bind (fits _) fun _ _ => ?_
    rw [half, Tensor.smul_ofVec, Tensor.ofVec_add]
    refine ends_bind (answers _ _) ?_
    rintro _ rfl
    refine ends_bind (fits _) fun _ _ => ends_pure ?_
    simp [flow]
  | rk4 =>
    have two : (2.0 : Rat) = 2 := by norm_num
    have six : (6.0 : Rat) = 6 := by norm_num
    refine ends_bind (fits _) fun _ _ => ?_
    rw [half, Tensor.smul_ofVec, Tensor.ofVec_add]
    refine ends_bind (answers _ _) ?_
    rintro _ rfl
    refine ends_bind (fits _) fun _ _ => ?_
    rw [Tensor.smul_ofVec, Tensor.ofVec_add]
    refine ends_bind (answers _ _) ?_
    rintro _ rfl
    refine ends_bind (fits _) fun _ _ => ?_
    rw [Tensor.smul_ofVec, Tensor.ofVec_add]
    refine ends_bind (answers _ _) ?_
    rintro _ rfl
    refine ends_bind (fits _) fun _ _ => ends_pure ?_
    simp [flow, two, six]
  | abstract => exact fun s => ⟨(fun _ _ ran => by cases ran), fun _ _ _ => trivial⟩

end Scheme

/-! ## Steps -/

namespace Stepper

variable {rate : Rate ω Rat} {f : Rat → (Fin n → Rat) → Fin n → Rat}

/-- Whether the stages of a step are compiled, have been compiled, or are called makes no difference. -/
theorem increment_flow (field : rate.Field f) (stepper : Stepper) (t h : Rat) (v : Fin n → Rat) :
    (stepper.increment rate t (.ofVec v) h (.ofVec (f t v))).Ends (· = .ofVec (stepper.scheme.flow f t h v))
      fun _ => True := by
  unfold increment
  cases stepper.compiles with
  | false => exact stepper.scheme.increment_flow field.call t h v
  | true =>
    have compiling : ∀ t v, (rate.compilingCall t (.ofVec v)).Ends (· = .ofVec (f t v)) fun _ => True := by
      intro t v
      exact ends_bind (ends_modify _) fun _ _ => ends_bind (ends_anyhow _) fun _ _ => field.compiledCall t v
    refine ends_bind ends_get fun u _ => ?_
    split
    · exact stepper.scheme.increment_flow field.compiledCall t h v
    · refine ends_bind (stepper.scheme.increment_flow compiling t h v) ?_
      rintro _ rfl
      exact ends_bind (ends_modify _) fun _ _ => ends_pure rfl

/-- A step along a field goes to the image under the flow of the scheme, and takes the derivative there. -/
theorem advance_flow (field : rate.Field f) (stepper : Stepper) (t h : Rat) (v : Fin n → Rat) {yp : Option (State Rat)}
    (known : ∀ value ∈ yp, value = .ofVec (f t v)) :
    (stepper.advance rate t (.ofVec v) h yp).Ends (fun step => step.yNext = .ofVec (stepper.scheme.flow f t h v) ∧
      step.ypNext = .ofVec (f (t + h) (stepper.scheme.flow f t h v))) fun _ => True := by
  have proceeds : (stepper.proceed rate t (.ofVec v) h (.ofVec (f t v))).Ends
      (fun step => step.yNext = .ofVec (stepper.scheme.flow f t h v) ∧
        step.ypNext = .ofVec (f (t + h) (stepper.scheme.flow f t h v))) fun _ => True := by
    refine ends_bind (stepper.increment_flow field t h v) ?_
    rintro _ rfl
    refine ends_bind (field.call _ _) ?_
    rintro _ rfl
    exact ends_pure ⟨rfl, rfl⟩
  have checked : (liftM (checkStepSize h) : Effect (Tally ω) Rat Rat).Ends (· = h) fun _ => True := by
    refine ends_lift (fun size accepted => ?_) fun _ _ => trivial
    rw [checkStepSize] at accepted
    split at accepted
    · cases accepted
    · exact (Except.ok.inj accepted).symm
  cases yp with
  | some value =>
    rw [advance_known, known value rfl]
    refine ends_bind checked ?_
    rintro _ rfl
    exact proceeds
  | none =>
    rw [advance_unknown]
    refine ends_bind checked ?_
    rintro _ rfl
    refine ends_bind (field.call t v) ?_
    rintro _ rfl
    exact proceeds

end Stepper

/-! ## Linear and polynomial fields -/

/-- The Taylor polynomial of the exponential of a given degree. -/
noncomputable def taylor (degree : Nat) : ℚ[X] := (PowerSeries.exp ℚ).trunc (degree + 1)

theorem aeval_taylor {R : Type} [Ring R] [Algebra ℚ R] (degree : Nat) (x : R) :
    aeval x (taylor degree) = ∑ i ∈ Finset.range (degree + 1), (1 / (i.factorial : ℚ)) • x ^ i := by
  rw [taylor, aeval_def, PowerSeries.eval₂_trunc_eq_sum_range]
  refine Finset.sum_congr rfl fun i _ => ?_
  rw [PowerSeries.coeff_exp, Algebra.smul_def]
  rfl

open Matrix in
/-- Along a linear field the flow of a scheme is the Taylor polynomial of the exponential. -/
theorem Scheme.flow_linear (scheme : Scheme) (A : Matrix (Fin n) (Fin n) Rat) (t h : Rat) (v : Fin n → Rat) :
    scheme.flow (fun _ v => A *ᵥ v) t h v = aeval (h • A) (taylor scheme.order) *ᵥ v := by
  have powers : ∀ i, (h • A) ^ (i + 1) *ᵥ v = h ^ (i + 1) • A *ᵥ (A ^ i *ᵥ v) := by
    intro i
    rw [smul_pow h A (i + 1), smul_mulVec, mulVec_mulVec, pow_succ' A]
  rw [aeval_taylor, sum_mulVec, Finset.sum_range_succ']
  simp only [smul_mulVec, powers, pow_zero, one_mulVec]
  cases scheme with
  | euler | midpoint | rk4 =>
    simp only [flow, order, Finset.sum_range_succ, Finset.sum_range_zero, pow_succ, pow_zero, one_mul, one_mulVec,
      ← mulVec_mulVec, mulVec_add, mulVec_smul, Nat.factorial]
    norm_num
    module
  | abstract => simp [flow, order]

section

variable {p : ℚ[X]} {N : Nat}

/-- The polynomial with a given derivative that vanishes at zero. -/
noncomputable def primitive (p : ℚ[X]) : ℚ[X] := p.sum fun i a => monomial (i + 1) (a / (i + 1))

theorem derivative_primitive (p : ℚ[X]) : derivative (primitive p) = p := by
  rw [primitive, Polynomial.sum, map_sum]
  conv_rhs => rw [p.as_sum_support]
  refine Finset.sum_congr rfl fun i _ => ?_
  have positive : (i : ℚ) + 1 ≠ 0 := by positivity
  rw [derivative_monomial, Nat.cast_succ, div_mul_cancel₀ _ positive, Nat.add_sub_cancel]

theorem eval_primitive (degree : p.natDegree < N) (t : ℚ) :
    (primitive p).eval t = ∑ i ∈ Finset.range N, p.coeff i / (i + 1) * t ^ (i + 1) := by
  rw [primitive, sum_over_range' p _ N degree, eval_finsetSum]
  · simp
  · simp

/-- The integral of a polynomial between rational bounds. -/
theorem integral_eval (p : ℚ[X]) (a b : ℚ) : ∫ x in (a : ℝ)..b, (p.map (algebraMap ℚ ℝ)).eval x =
    (((primitive p).eval b - (primitive p).eval a : ℚ) : ℝ) := by
  have values : ∀ c : ℚ, ((primitive p).map (algebraMap ℚ ℝ)).eval (c : ℝ) = ((primitive p).eval c : ℚ) := by
    intro c
    rw [← eq_ratCast (algebraMap ℚ ℝ) c, eval_map, eval₂_at_apply, eq_ratCast]
  have slope : ∀ x, HasDerivAt (fun x => ((primitive p).map (algebraMap ℚ ℝ)).eval x)
      ((p.map (algebraMap ℚ ℝ)).eval x) x := by
    intro x
    have derived := ((primitive p).map (algebraMap ℚ ℝ)).hasDerivAt x
    rwa [derivative_map, derivative_primitive] at derived
  rw [intervalIntegral.integral_eq_sub_of_hasDerivAt (fun x _ => slope x)
    ((p.map (algebraMap ℚ ℝ)).continuous.intervalIntegrable _ _), values, values]
  push_cast
  rfl

/-- Along polynomials of lower degree than its order a scheme integrates exactly. -/
theorem Scheme.flow_polynomial (scheme : Scheme) {p : Fin n → ℚ[X]} (degree : ∀ i, (p i).natDegree < scheme.order)
    (t h : Rat) (v : Fin n → Rat) : scheme.flow (fun t _ i => (p i).eval t) t h v =
      fun i => v i + ((primitive (p i)).eval (t + h) - (primitive (p i)).eval t) := by
  funext i
  have low := degree i
  have sums := eval_primitive low
  cases scheme with
  | euler | midpoint | rk4 =>
    simp only [flow, Pi.add_apply, Pi.smul_apply, smul_eq_mul, sums, eval_eq_sum_range' low, order,
      Finset.sum_range_succ, Finset.sum_range_zero]
    push_cast
    ring
  | abstract => exact absurd low (Nat.not_lt_zero _)

end

end Trajectory
