import Mathlib.Analysis.SpecialFunctions.Trigonometric.Basic
import Trajectory.Scalar

/-!
Real numbers as scalars, with the real elementary functions: the numbers for which the closed-form solutions of the
reference problems are meant. As for the rationals, every number is finite and equals itself.
-/

namespace Trajectory

noncomputable instance : Scalar ℝ where
  decLt := fun _ _ => inferInstance
  decLe := fun _ _ => inferInstance
  ofNat := fun n => (n : ℝ)
  abs := fun x => |x|
  isFinite := fun _ => true
  ceil := Int.ceil
  undefined := 0
  flush := id

noncomputable instance : Analytic ℝ where
  sin := Real.sin
  cos := Real.cos
  exp := Real.exp
  pow := fun x n => x ^ n
  pi := Real.pi

end Trajectory
