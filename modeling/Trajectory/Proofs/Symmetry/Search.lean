import Mathlib.Tactic
import Trajectory.Proofs.Bracket
import Trajectory.Proofs.Symmetry.Basic

/-!
Brent's method under a symmetry.

A root search goes through the images of its brackets (`Bracket.image`) and ends with the image of its
root (`RootSearch.agree_solve`): the interpolated moves are quotients in which the factor of the
function cancels, and a bisection goes half the way in either direction of time. The least move is the
one place where a way of length zero would be told from its image; it is only made while the interval
is longer than the tolerance.
-/

namespace Trajectory

variable {ω : Type} (sym : Symmetry) (i : Nat)

/-- The image of a quotient: a common factor cancels, and that of the time is left. -/
theorem quotient_image {x y x' y' c : Rat} (factor : c ≠ 0) (numerator : x' = c * sym.time x)
    (denominator : y' = c * y) :
    quotient x' y' = (quotient x y : Except (Error Rat) Rat).map sym.time := by
  by_cases zero : y = 0
  · simp [quotient, denominator, zero, Except.map]
  · have ratio : x' / y' = sym.time (x / y) := by
      rw [numerator, denominator, mul_div_mul_left _ _ factor, Symmetry.time, Symmetry.time, mul_div_assoc]
    simp [quotient, denominator, factor, zero, Except.map, ← ratio, numerator]

/-- The image of a slope. -/
theorem slope_image (f g x y : Rat) : quotient (sym.value i f - sym.value i g) (sym.time x - sym.time y) =
    (quotient (f - g) (x - y) : Except (Error Rat) Rat).map fun d => sym.value i (sym.time d) := by
  rw [← sym.time_sub, ← sym.value_sub]
  by_cases zero : x - y = 0
  · simp [quotient, zero, Except.map]
  · have ratio : sym.value i (f - g) / sym.time (x - y) = sym.value i (sym.time ((f - g) / (x - y))) := by
      rw [Symmetry.value, Symmetry.value, mul_div_assoc, sym.div_time]
    simp [quotient, zero, Except.map, ratio]

namespace Bracket

/-- The image of a bracket. -/
def image (b : Bracket Rat) : Bracket Rat where
  xPre := sym.time b.xPre
  fPre := sym.value i b.fPre
  xCur := sym.time b.xCur
  fCur := sym.value i b.fCur
  xBlk := sym.time b.xBlk
  fBlk := sym.value i b.fBlk
  sPre := sym.time b.sPre
  sCur := sym.time b.sCur

variable (b : Bracket Rat) (tolerance : Rat)

theorem initial_image (x fx y fy : Rat) : initial (sym.time x) (sym.value i fx) (sym.time y) (sym.value i fy) =
    (initial x fx y fy).image sym i := by
  rw [initial, initial, image, sym.time_sub]

theorem renewed_image : (b.image sym i).renewed = b.renewed.image sym i := by
  by_cases pre : b.fPre = 0
  · have zero : (b.image sym i).fPre = 0 := (sym.value_eq_zero i).mpr pre
    simp [renewed, pre, zero]
  by_cases cur : b.fCur = 0
  · have zero : (b.image sym i).fCur = 0 := (sym.value_eq_zero i).mpr cur
    simp [renewed, cur, zero]
  have signs : (Scalar.isPositive (b.image sym i).fPre != Scalar.isPositive (b.image sym i).fCur) =
      (Scalar.isPositive b.fPre != Scalar.isPositive b.fCur) := by
    rw [image, sym.isPositive_value i pre, sym.isPositive_value i cur, bne, sym.turn_beq, bne]
  rw [renewed, renewed, signs]
  simp only [image, sym.isZero_value]
  split
  · simp only [sym.time_sub]
  · rfl

theorem ordered_image : (b.image sym i).ordered = b.ordered.image sym i := by
  simp only [ordered, image, Scalar.abs_rat, sym.abs_value_lt]
  split <;> rfl

theorem margin_image : (b.image sym i).margin tolerance = b.margin tolerance := by
  simp only [margin, image, Scalar.abs_rat, sym.abs_time]

theorem halfway_image : (b.image sym i).halfway = sym.time b.halfway := by
  simp only [halfway, image, ← sym.time_sub, sym.mul_time]

theorem answer?_image (endPositive : Bool) : (b.image sym i).answer? tolerance (sym.turn i endPositive) =
    (b.answer? tolerance endPositive).map sym.time := by
  rw [answer?, answer?, halfway_image, margin_image]
  simp only [image, sym.isZero_value, Scalar.abs_rat, sym.abs_time]
  by_cases root : b.fCur = 0
  · simp [root]
  · rw [sym.isPositive_value i root, sym.turn_beq]
    split
    · split <;> rfl
    · rfl

theorem interpolated_image : (b.image sym i).interpolated = b.interpolated.map sym.time := by
  have factor := sym.nonzero i
  by_cases same : b.xPre = b.xBlk
  · have same' : (b.image sym i).xPre = (b.image sym i).xBlk := congrArg sym.time same
    rw [interpolated, interpolated, if_pos (beq_iff_eq.mpr same), if_pos (beq_iff_eq.mpr same')]
    refine quotient_image sym factor ?_ (sym.value_sub i _ _).symm
    simp only [image, Symmetry.value, Symmetry.time]
    ring
  · have other : (b.image sym i).xPre ≠ (b.image sym i).xBlk := fun equal => same (sym.time_inj.mp equal)
    rw [interpolated, interpolated, if_neg fun equal => same (beq_iff_eq.mp equal),
      if_neg fun equal => other (beq_iff_eq.mp equal)]
    simp only [image, slope_image]
    cases quotient (b.fPre - b.fCur) (b.xPre - b.xCur) with
    | error e => rfl
    | ok dPre =>
      cases quotient (b.fBlk - b.fCur) (b.xBlk - b.xCur) with
      | error e => rfl
      | ok dBlk =>
        have cube : sym.factor i * sym.factor i * sym.factor i ≠ 0 := mul_ne_zero (mul_ne_zero factor factor) factor
        refine quotient_image sym cube ?_ ?_
        · simp only [Symmetry.value, Symmetry.time]
          ring
        · simp only [Symmetry.value, Symmetry.time]
          linear_combination (sym.factor i * sym.factor i * sym.factor i * dBlk * dPre * (b.fBlk - b.fPre)) *
            sym.sign_mul_sign

theorem strides_image : (b.image sym i).strides tolerance =
    (b.strides tolerance).map (Prod.map sym.time sym.time) := by
  rw [strides, strides, margin_image, halfway_image, interpolated_image]
  simp only [image, Scalar.abs_rat, sym.abs_time, sym.abs_value_lt, Scalar.smaller_rat]
  split
  · cases b.interpolated with
    | error e => rfl
    | ok s =>
      change (if 2.0 * |sym.time s| < _ then _ else _) = Except.map _ (if 2.0 * |s| < _ then _ else _)
      rw [sym.abs_time]
      split <;> rfl
  · rfl

/-- While some way is left, the next abscissa is found in the same way in either direction. -/
theorem target_image (s : Rat) (long : b.halfway ≠ 0) :
    (b.image sym i).target tolerance (sym.time s) = sym.time (b.target tolerance s) := by
  rw [target, target, halfway_image, margin_image]
  simp only [image, Scalar.abs_rat, sym.abs_time]
  by_cases far : b.margin tolerance < |s|
  · rw [if_pos far, if_pos far, sym.time_add]
  · rw [if_neg far, if_neg far]
    -- The least move goes up only if the middle lies ahead. A middle at no distance would make it go down
    -- in both directions, which is why some way has to be left.
    rcases sym.unit with same | other
    · simp only [Symmetry.time, same, one_mul]
    · simp only [Symmetry.time, other, neg_one_mul, Scalar.isPositive_rat, decide_eq_true_eq]
      rcases lt_or_gt_of_ne long with back | ahead
      · rw [if_pos (neg_pos.mpr back), if_neg back.not_gt]
        ring
      · rw [if_neg (neg_neg_of_pos ahead).not_gt, if_pos ahead]
        ring

theorem advanced_image (long : b.halfway ≠ 0) :
    (b.image sym i).advanced tolerance = (b.advanced tolerance).map (image sym i) := by
  rw [advanced, advanced, strides_image]
  cases b.strides tolerance with
  | error e => rfl
  | ok lengths =>
    obtain ⟨sPre, sCur⟩ := lengths
    change Except.ok _ = Except.ok _
    rw [Except.ok.injEq]
    simp only [target_image sym i b tolerance sCur long]
    rfl

/-- While a search goes on there is some way left. -/
theorem halfway_ne_zero {endPositive : Bool} (positive : 0 < tolerance)
    (going : b.answer? tolerance endPositive = none) : b.halfway ≠ 0 := by
  obtain ⟨_, long⟩ := answer?_eq_none going
  intro zero
  rw [zero, abs_zero] at long
  exact absurd (margin_pos positive) (not_lt.mpr long)

end Bracket

namespace RootSearch

variable {sym i} {search : RootSearch Rat} {f f' : Rat → Effect ω Rat Rat}

/-- A search goes through the images of its brackets. -/
theorem agree_refine (positive : 0 < search.tolerance) (images : ∀ x,
      (f x).Agree (Error.Alike sym) Eq (fun y y' => y' = sym.value i y) (f' (sym.time x)))
    (endPositive : Bool) (left : Nat) (b : Bracket Rat) :
    (search.refine f endPositive left b).Agree (Error.Alike sym) Eq (fun r r' => r' = sym.time r)
      (search.refine f' (sym.turn i endPositive) left (b.image sym i)) := by
  induction left generalizing b with
  | zero =>
    unfold refine
    dsimp only
    rw [Bracket.renewed_image, Bracket.ordered_image, Bracket.answer?_image]
    cases b.renewed.ordered.answer? search.tolerance endPositive with
    | some x => exact Effect.agree_pure rfl
    | none => exact Effect.agree_throw (Error.alike_image rfl)
  | succ left ih =>
    unfold refine
    dsimp only
    rw [Bracket.renewed_image, Bracket.ordered_image, Bracket.answer?_image]
    cases going : b.renewed.ordered.answer? search.tolerance endPositive with
    | some x => exact Effect.agree_pure rfl
    | none =>
      dsimp only [Option.map_none]
      rw [Bracket.advanced_image sym i _ _ (Bracket.halfway_ne_zero _ _ positive going)]
      refine Effect.agree_bind (Effect.agree_lift (.map (Error.alike_refl sym) _ _)) ?_
      rintro b₁ _ rfl
      refine Effect.agree_bind (images b₁.xCur) ?_
      rintro y _ rfl
      exact ih { b₁ with fCur := y }

/-- A search that starts on a change of sign ends with the image of its root. -/
theorem agree_solve (positive : 0 < search.tolerance) (images : ∀ x,
      (f x).Agree (Error.Alike sym) Eq (fun y y' => y' = sym.value i y) (f' (sym.time x))) {a fa b fb : Rat}
    (start : fa ≠ 0) (crossing : fb = 0 ∨ (0 < fb ↔ fa < 0)) :
    (search.solve f a b (some fa) (some fb)).Agree (Error.Alike sym) Eq (fun r r' => r' = sym.time r)
      (search.solve f' (sym.time a) (sym.time b) (some (sym.value i fa)) (some (sym.value i fb))) := by
  have start' : sym.value i fa ≠ 0 := fun zero => start ((sym.value_eq_zero i).mp zero)
  by_cases far : fb = 0
  · rw [far, sym.value_zero, solve_root start, solve_root start']
    exact Effect.agree_pure rfl
  · have far' : sym.value i fb ≠ 0 := fun zero => far ((sym.value_eq_zero i).mp zero)
    have signs := mul_neg_of_opposite start far (crossing.resolve_left far)
    have signs' : sym.value i fb * sym.value i fa < 0 := by
      have product : sym.value i fb * sym.value i fa = (sym.factor i * sym.factor i) * (fb * fa) := by
        rw [Symmetry.value, Symmetry.value]
        ring
      rw [product]
      exact mul_neg_of_pos_of_neg (mul_self_pos.mpr (sym.nonzero i)) signs
    have side : decide (0 < sym.value i fb) = sym.turn i (decide (0 < fb)) := by
      simpa using sym.isPositive_value i far
    rw [solve_refine start far signs, solve_refine start' far' signs', side, Bracket.initial_image]
    exact agree_refine positive images _ _ _

end RootSearch

end Trajectory
