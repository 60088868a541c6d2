/-!
Shapes of arrays: the extents along the axes, the axis whose index varies fastest last.

Two shapes fit together if, axis by axis from the last one, their extents are equal or one of them is one; an axis
that only one of them has fits. The joint shape takes the greater demand along each axis, and `Shape.position` says
where an array of a shape that fits is read for a place in the joint shape: along an axis of extent one, and along
an axis it lacks, always at the same place.
-/

namespace Trajectory

/-- The extents of an array along its axes; none for a single number. -/
abbrev Shape : Type := List Nat

namespace Shape

/-- The number of entries of an array. -/
def size : Shape → Nat
  | [] => 1
  | n :: s => n * size s

@[simp] theorem size_nil : size [] = 1 := rfl

@[simp] theorem size_cons (n : Nat) (s : Shape) : size (n :: s) = n * size s := rfl

/-- The joint shape of two shapes, for extents listed from the last axis to the first. -/
def joinBack : List Nat → List Nat → Option (List Nat)
  | [], t => some t
  | s, [] => some s
  | a :: s, b :: t => do
    let rest ← joinBack s t
    if a = b ∨ b = 1 then some (a :: rest)
    else if a = 1 then some (b :: rest)
    else none

theorem joinBack_self (s : List Nat) : joinBack s s = some s := by
  induction s with
  | nil => rfl
  | cons a s ih => simp [joinBack, ih]

/-- The joint shape of two shapes, if they fit together. -/
def join? (s t : Shape) : Option Shape :=
  (joinBack s.reverse t.reverse).map List.reverse

@[simp] theorem join?_nil (s : Shape) : join? [] s = some s := by
  simp [join?, joinBack]

@[simp] theorem join?_self (s : Shape) : join? s s = some s := by
  simp [join?, joinBack_self]

/-- The place at which an array with the extents `s` is read for the place `k` of an array with the extents `t`,
both listed from the last axis to the first. -/
def position : List Nat → List Nat → Nat → Nat
  | a :: s, b :: t, k => (if a = 1 then 0 else k % b) + a * position s t (k / b)
  | _, _, _ => 0

end Shape

end Trajectory
