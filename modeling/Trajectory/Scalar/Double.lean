import Trajectory.Binary64
import Trajectory.Scalar

/-!
Double-precision floating-point numbers as scalars: each operation rounds its exact result once, and not-a-number
compares with nothing.
-/

namespace Trajectory

instance : Scalar Float where
  decLt := fun _ _ => inferInstance
  decLe := fun _ _ => inferInstance
  ofNat := Float.ofNat
  abs := Float.abs
  isFinite := Float.isFinite
  ceil := fun x => (Binary64.parts x).ceil
  undefined := 0.0 / 0.0
  flush := Binary64.flush

instance : Spacing Float where
  ulp := Binary64.ulp

instance : Analytic Float where
  sin := Float.sin
  cos := Float.cos
  exp := Float.exp
  pow := fun x n => Float.pow x (Float.ofNat n)
  pi := 3.141592653589793

end Trajectory
