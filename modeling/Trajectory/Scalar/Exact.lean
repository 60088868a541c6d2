import Trajectory.Scalar

/-!
Rational numbers as scalars: the arithmetic in which the laws of the library are exact. Every rational is finite
and equals itself, so the branches that deal with overflow and undefined values are never taken, and all have full
precision, so that flushing changes none.
-/

namespace Trajectory

instance : Scalar Rat where
  decLt := fun _ _ => inferInstance
  decLe := fun _ _ => inferInstance
  ofNat := fun n => (n : Rat)
  abs := fun x => if x < 0 then -x else x
  isFinite := fun _ => true
  ceil := Rat.ceil
  undefined := 0
  flush := id

namespace Scalar

@[simp] theorem flush_rat (x : Rat) : flush x = x := rfl

@[simp] theorem flushed_rat (f : Rat → Rat → Rat) : flushed f = f := rfl

end Scalar

end Trajectory
