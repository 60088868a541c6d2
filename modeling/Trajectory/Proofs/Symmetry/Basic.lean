import Mathlib.Tactic
import Trajectory.Proofs.Agreement
import Trajectory.Proofs.Exact
import Trajectory.Error

/-!
Symmetries of runs.

A symmetry lets time run in the same direction or in the other one, and multiplies the switching
function of every handler by a factor. Under it the times, lengths and values of a run have images
(`Symmetry.time`, `Symmetry.value`), and so have the direction of the run (`Symmetry.way`) and that of
a crossing (`Symmetry.turn`). Comparisons along the run are not affected.
-/

namespace Trajectory

/-- A symmetry of runs. -/
structure Symmetry where
  /-- The sign with which time is taken. -/
  sign : Rat
  /-- The factor of the switching function of the handler at a place. -/
  factor : Nat → Rat
  unit : sign = 1 ∨ sign = -1
  nonzero : ∀ i, factor i ≠ 0

namespace Symmetry

variable (sym : Symmetry)

/-- The image of a time, or of a length of time with its sign. -/
def time (t : Rat) : Rat := sym.sign * t

/-- The image of a value of the switching function at a place. -/
def value (i : Nat) (x : Rat) : Rat := sym.factor i * x

/-- The image of a direction of runs. -/
def way (forward : Bool) : Bool := if 0 < sym.sign then forward else !forward

/-- The image of the direction in which the switching function at a place crosses zero. -/
def turn (i : Nat) (increasing : Bool) : Bool := if 0 < sym.factor i then increasing else !increasing

theorem sign_mul_sign : sym.sign * sym.sign = 1 := by
  rcases sym.unit with same | other
  · rw [same, one_mul]
  · rw [other]
    norm_num

theorem time_time (t : Rat) : sym.time (sym.time t) = t := by
  rw [time, time, ← mul_assoc, sym.sign_mul_sign, one_mul]

theorem time_zero : sym.time 0 = 0 := mul_zero _

theorem time_add (s t : Rat) : sym.time (s + t) = sym.time s + sym.time t := mul_add _ _ _

theorem time_sub (s t : Rat) : sym.time (s - t) = sym.time s - sym.time t := mul_sub _ _ _

theorem mul_time (c t : Rat) : c * sym.time t = sym.time (c * t) := by
  rw [time, time]
  ring

theorem time_div (t c : Rat) : sym.time t / c = sym.time (t / c) := mul_div_assoc _ _ _

@[simp] theorem abs_time (t : Rat) : |sym.time t| = |t| := by
  rcases sym.unit with same | other
  · rw [time, same, one_mul]
  · rw [time, other, neg_one_mul, abs_neg]

@[simp] theorem time_inj {s t : Rat} : sym.time s = sym.time t ↔ s = t := by
  constructor
  · intro same
    rw [← sym.time_time s, same, sym.time_time]
  · exact congrArg sym.time

@[simp] theorem time_eq_zero {t : Rat} : sym.time t = 0 ↔ t = 0 := by
  rw [← sym.time_zero, sym.time_inj, sym.time_zero]

theorem time_beq (s t : Rat) : (sym.time s == sym.time t) = (s == t) := by
  rw [Bool.eq_iff_iff, beq_iff_eq, beq_iff_eq, sym.time_inj]

@[simp] theorem time_mul_time (s t : Rat) : sym.time s * sym.time t = s * t := by
  rw [time, time, mul_mul_mul_comm, sym.sign_mul_sign, one_mul]

@[simp] theorem time_div_time (s t : Rat) : sym.time s / sym.time t = s / t := by
  rcases sym.unit with same | other
  · rw [time, time, same, one_mul, one_mul]
  · rw [time, time, other, neg_one_mul, neg_one_mul, neg_div_neg_eq]

theorem div_time (s t : Rat) : s / sym.time t = sym.time (s / t) := by
  have whole := sym.time_div_time (sym.time s) t
  rw [sym.time_time] at whole
  rw [whole, time, time, mul_div_assoc]

theorem way_cases : (sym.sign = 1 ∧ ∀ forward, sym.way forward = forward) ∨
    (sym.sign = -1 ∧ ∀ forward, sym.way forward = !forward) := by
  rcases sym.unit with same | other
  · exact Or.inl ⟨same, fun forward => by rw [way, same, if_pos one_pos]⟩
  · exact Or.inr ⟨other, fun forward => by rw [way, other, if_neg (by norm_num)]⟩

theorem runSign_way (forward : Bool) : (runSign (sym.way forward) : Rat) = sym.sign * runSign forward := by
  rcases sym.way_cases with ⟨sign, way⟩ | ⟨sign, way⟩
  · rw [sign, way, one_mul]
  · rw [sign, way]
    cases forward <;> norm_num [runSign]

theorem runSign_mul_time (forward : Bool) (t : Rat) :
    (runSign (sym.way forward) : Rat) * sym.time t = runSign forward * t := by
  rw [sym.runSign_way, time]
  linear_combination (runSign forward * t) * sym.sign_mul_sign

@[simp] theorem precedes_time {forward : Bool} {s t : Rat} :
    Precedes (sym.way forward) (sym.time s) (sym.time t) ↔ Precedes forward s t := by
  rw [precedes_iff_sign, precedes_iff_sign, sym.runSign_mul_time, sym.runSign_mul_time]

@[simp] theorem notAfter_time {forward : Bool} {s t : Rat} :
    NotAfter (sym.way forward) (sym.time s) (sym.time t) ↔ NotAfter forward s t := by
  rw [notAfter_iff_sign, notAfter_iff_sign, sym.runSign_mul_time, sym.runSign_mul_time]

theorem isAfter_time (forward : Bool) (s t : Rat) :
    isAfter (sym.way forward) (sym.time s) (sym.time t) = isAfter forward s t := by
  rw [Bool.eq_iff_iff, isAfter_iff, isAfter_iff, sym.precedes_time]

/-- The direction of a run between two times is that between their images. -/
theorem decide_lt_time {s t : Rat} (different : s ≠ t) :
    decide (sym.time s < sym.time t) = sym.way (decide (s < t)) := by
  rcases sym.way_cases with ⟨sign, way⟩ | ⟨sign, way⟩
  · rw [way, time, time, sign, one_mul, one_mul]
  · rw [way, time, time, sign, neg_one_mul, neg_one_mul, Bool.eq_iff_iff, decide_eq_true_eq, neg_lt_neg_iff,
      Bool.not_eq_true', decide_eq_false_iff_not, not_lt]
    exact ⟨le_of_lt, fun before => lt_of_le_of_ne before different.symm⟩

theorem decide_le_time {s t : Rat} (different : s ≠ t) :
    decide (sym.time s ≤ sym.time t) = sym.way (decide (s ≤ t)) := by
  have strict : decide (s ≤ t) = decide (s < t) := by simp [lt_iff_le_and_ne, different]
  have strict' : decide (sym.time s ≤ sym.time t) = decide (sym.time s < sym.time t) := by
    simp [lt_iff_le_and_ne, different]
  rw [strict, strict', sym.decide_lt_time different]

section

variable (i : Nat)

@[simp] theorem value_eq_zero {x : Rat} : sym.value i x = 0 ↔ x = 0 := by
  rw [value, mul_eq_zero, or_iff_right (sym.nonzero i)]

theorem value_zero : sym.value i 0 = 0 := mul_zero _

theorem value_sub (x y : Rat) : sym.value i (x - y) = sym.value i x - sym.value i y := mul_sub _ _ _

@[simp] theorem abs_value_lt {x y : Rat} : |sym.value i x| < |sym.value i y| ↔ |x| < |y| := by
  rw [value, value, abs_mul, abs_mul, mul_lt_mul_iff_right₀ (abs_pos.mpr (sym.nonzero i))]

theorem turn_not (increasing : Bool) : sym.turn i (!increasing) = !sym.turn i increasing := by
  rw [turn, turn]
  split <;> rfl

theorem turn_turn (increasing : Bool) : sym.turn i (sym.turn i increasing) = increasing := by
  rw [turn, turn]
  split
  · rfl
  · exact Bool.not_not _

theorem turn_beq (a b : Bool) : (sym.turn i a == sym.turn i b) = (a == b) := by
  rw [turn, turn]
  split
  · rfl
  · cases a <;> cases b <;> rfl

theorem isPositive_value {x : Rat} (nonzero : x ≠ 0) :
    Scalar.isPositive (sym.value i x) = sym.turn i (Scalar.isPositive x) := by
  rw [Scalar.isPositive_rat, Scalar.isPositive_rat, value, turn]
  by_cases positive : 0 < sym.factor i
  · rw [if_pos positive]
    simp [positive]
  · have negative : sym.factor i < 0 := lt_of_le_of_ne (not_lt.mp positive) (sym.nonzero i)
    rw [if_neg positive]
    rcases lt_or_gt_of_ne nonzero with low | high
    · simp [mul_pos_of_neg_of_neg negative low, low.le]
    · simp [negative.le, high]

theorem isNegative_value {x : Rat} (nonzero : x ≠ 0) :
    Scalar.isNegative (sym.value i x) = sym.turn i (Scalar.isNegative x) := by
  have other : ∀ z : Rat, z ≠ 0 → Scalar.isNegative z = !Scalar.isPositive z := by
    intro z different
    rw [Scalar.isNegative_rat, Scalar.isPositive_rat, Bool.eq_iff_iff, decide_eq_true_eq, Bool.not_eq_true',
      decide_eq_false_iff_not, not_lt]
    exact ⟨le_of_lt, fun atMost => lt_of_le_of_ne atMost different⟩
  rw [other _ nonzero, other _ (by simpa using nonzero), sym.isPositive_value i nonzero, sym.turn_not]

theorem isZero_value (x : Rat) : Scalar.isZero (sym.value i x) = Scalar.isZero x := by
  simp

end

end Symmetry

/-- The image of an error: that of the times it speaks of. -/
def Error.image (sym : Symmetry) : Error Rat → Error Rat
  | .stepSize h => .stepSize (sym.time h)
  | .interval start target => .interval (sym.time start) (sym.time target)
  | .stepsExhausted budget time target => .stepsExhausted budget (sym.time time) (sym.time target)
  | .notIsolated lower upper iterations => .notIsolated (sym.time lower) (sym.time upper) iterations
  | .outsideWindow time start stop => .outsideWindow (sym.time time) (sym.time start) (sym.time stop)
  | .reversedWindow start stop => .reversedWindow (sym.time start) (sym.time stop)
  | e => e

/-- An error of a run and the one in its place under a symmetry: the error of a caller is the same,
that of the library is the image. -/
def Error.Alike (sym : Symmetry) (e e' : Error Rat) : Prop := e' = e ∨ e' = e.image sym

theorem Error.alike_refl (sym : Symmetry) (e : Error Rat) : e.Alike sym e := Or.inl rfl

theorem Error.alike_image {sym : Symmetry} {e e' : Error Rat} (image : e' = e.image sym) : e.Alike sym e' :=
  Or.inr image

theorem Error.Alike.isFailure {sym : Symmetry} {e e' : Error Rat} (alike : e.Alike sym e') :
    e'.isFailure = e.isFailure := by
  rcases alike with rfl | rfl
  · rfl
  · cases e <;> rfl

end Trajectory
