import Mathlib.Tactic
import Trajectory.Event.Monitor
import Trajectory.Scalar.Exact

/-!
The tests and functions of rational scalars in the terms of the ordered field of rationals, and the
order of times along a run.

`Precedes` is the order in which a run meets times. Everything that is said of both directions is
said with it, so that the direction is looked at here and nowhere else.
-/

namespace Trajectory

namespace Scalar

@[simp] theorem abs_rat (x : Rat) : Scalar.abs x = |x| := by
  change (if x < 0 then -x else x) = |x|
  by_cases negative : x < 0
  · rw [if_pos negative, abs_of_neg negative]
  · rw [if_neg negative, abs_of_nonneg (not_lt.mp negative)]

@[simp] theorem isZero_rat (x : Rat) : isZero x = decide (x = 0) := by
  norm_num [isZero]
  rfl

@[simp] theorem isPositive_rat (x : Rat) : isPositive x = decide (0 < x) := by
  norm_num [isPositive]

@[simp] theorem isNegative_rat (x : Rat) : isNegative x = decide (x < 0) := by
  norm_num [isNegative]

@[simp] theorem isFinite_rat (x : Rat) : isFinite x = true := rfl

@[simp] theorem isUndefined_rat (x : Rat) : isUndefined x = false := by
  simp [isUndefined]

@[simp] theorem larger_rat (x y : Rat) : larger x y = max x y := by
  by_cases less : x < y
  · rw [larger, if_pos less, max_eq_right less.le]
  · rw [larger, if_neg less, max_eq_left (not_lt.mp less)]

@[simp] theorem smaller_rat (x y : Rat) : smaller x y = min x y := by
  by_cases less : y < x
  · rw [smaller, if_pos less, min_eq_right less.le]
  · rw [smaller, if_neg less, min_eq_left (not_lt.mp less)]

@[simp] theorem ofNat_rat (n : Nat) : (Scalar.ofNat n : Rat) = n := rfl

end Scalar

/-- The first time comes before the second one in the direction of a run. -/
def Precedes (forward : Bool) (s t : Rat) : Prop := if forward then s < t else t < s

/-- The first time does not come after the second one in the direction of a run. -/
def NotAfter (forward : Bool) (s t : Rat) : Prop := if forward then s ≤ t else t ≤ s

instance (forward : Bool) (s t : Rat) : Decidable (NotAfter forward s t) :=
  inferInstanceAs (Decidable (if forward then s ≤ t else t ≤ s))

variable {forward : Bool} {r s t : Rat}

theorem runSign_true : (runSign true : Rat) = 1 := by norm_num [runSign]

theorem runSign_false : (runSign false : Rat) = -1 := by norm_num [runSign]

theorem runSign_mul_self : (runSign forward * runSign forward : Rat) = 1 := by cases forward <;> norm_num [runSign]

/-- Times precede one another as their keys on an axis along the run are less than one another. -/
theorem precedes_iff_sign : Precedes forward s t ↔ runSign forward * s < runSign forward * t := by
  cases forward <;> simp [Precedes, runSign_true, runSign_false]

theorem notAfter_iff_sign : NotAfter forward s t ↔ runSign forward * s ≤ runSign forward * t := by
  cases forward <;> simp [NotAfter, runSign_true, runSign_false]

@[simp] theorem isAfter_iff : isAfter forward t s = true ↔ Precedes forward s t := by
  cases forward <;> simp [isAfter, Precedes]

@[simp] theorem not_precedes : ¬ Precedes forward s t ↔ NotAfter forward t s := by
  simp only [precedes_iff_sign, notAfter_iff_sign, not_lt]

@[simp] theorem not_notAfter : ¬ NotAfter forward s t ↔ Precedes forward t s := by
  simp only [precedes_iff_sign, notAfter_iff_sign, not_le]

theorem Precedes.notAfter (h : Precedes forward s t) : NotAfter forward s t := by
  rw [precedes_iff_sign] at h
  exact notAfter_iff_sign.mpr h.le

theorem Precedes.ne (h : Precedes forward s t) : s ≠ t := by
  rintro rfl
  rw [precedes_iff_sign] at h
  exact lt_irrefl _ h

theorem NotAfter.refl : NotAfter forward s s := notAfter_iff_sign.mpr le_rfl

theorem NotAfter.trans (first : NotAfter forward r s) (second : NotAfter forward s t) :
    NotAfter forward r t := by
  rw [notAfter_iff_sign] at *
  exact first.trans second

theorem Precedes.trans_notAfter (first : Precedes forward r s) (second : NotAfter forward s t) :
    Precedes forward r t := by
  rw [precedes_iff_sign, notAfter_iff_sign] at *
  exact first.trans_le second

theorem NotAfter.trans_precedes (first : NotAfter forward r s) (second : Precedes forward s t) :
    Precedes forward r t := by
  rw [precedes_iff_sign, notAfter_iff_sign] at *
  exact first.trans_lt second

theorem Precedes.trans (first : Precedes forward r s) (second : Precedes forward s t) :
    Precedes forward r t := first.trans_notAfter second.notAfter

theorem NotAfter.precedes_of_ne (h : NotAfter forward s t) (different : s ≠ t) :
    Precedes forward s t := by
  cases forward
  · exact lt_of_le_of_ne h (Ne.symm different)
  · exact lt_of_le_of_ne h different

/-- Along a run the distance to a later time is not negative. -/
theorem NotAfter.abs_sub (h : NotAfter forward s t) : |t - s| = runSign forward * (t - s) := by
  cases forward
  · rw [runSign_false, neg_one_mul, abs_of_nonpos (sub_nonpos.mpr h)]
  · rw [runSign_true, one_mul, abs_of_nonneg (sub_nonneg.mpr h)]

end Trajectory
