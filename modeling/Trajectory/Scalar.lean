/-!
The numbers an integration is carried out in.

Every formula of the library is written once, over `Scalar`, and read in several number systems: the binary
floating-point numbers, in which programs run; the rationals, in which the laws of the method are exact; and any
field of real numbers, for the closed-form solutions of the reference problems. The written order of operations
is therefore part of a definition: two formulas that agree over the rationals may differ in floating point.

`Spacing` and `Analytic` are kept apart from `Scalar`, so that a law which needs neither a rounding unit nor the
exponential function does not have to fix one.
-/

namespace Trajectory

/-- Arithmetic, comparison and rounding up to an integer.

Comparisons are tests and need not form an order: where the scalars have a value that is not a number, every
comparison with it fails, `x == x` included. -/
class Scalar (α : Type) extends Add α, Sub α, Mul α, Div α, Neg α, LT α, LE α, BEq α,
    OfScientific α where
  decLt (x y : α) : Decidable (x < y)
  decLe (x y : α) : Decidable (x ≤ y)
  /-- The scalar nearest to a natural number. -/
  ofNat : Nat → α
  abs : α → α
  /-- Whether the scalar is a number and not an infinity. -/
  isFinite : α → Bool
  /-- The least integer not below a finite scalar. -/
  ceil : α → Int
  /-- The value of a quantity that nothing has set yet; not a number where the scalars allow it. -/
  undefined : α
  /-- The scalar that arithmetic on arrays takes a given one for: a zero, if its magnitude is too small for it to
  be held with full precision. -/
  flush : α → α

instance Scalar.decidableLt {α : Type} [Scalar α] (x y : α) : Decidable (x < y) :=
  Scalar.decLt x y

instance Scalar.decidableLe {α : Type} [Scalar α] (x y : α) : Decidable (x ≤ y) :=
  Scalar.decLe x y

/-- The distance between neighbouring scalars of a given magnitude: the unit in which rounding errors are
measured. It may be any function; exact number systems have no preferred one. -/
class Spacing (α : Type) where
  /-- The distance from a magnitude to the next larger scalar. -/
  ulp : α → α

/-- The elementary functions that the closed-form solutions need. -/
class Analytic (α : Type) extends Scalar α where
  sin : α → α
  cos : α → α
  exp : α → α
  pow : α → Nat → α
  /-- Half the circumference of the unit circle. -/
  pi : α

namespace Scalar

variable {α : Type} [Scalar α]

/-- Whether a scalar is no number at all. -/
def isUndefined (x : α) : Bool := !(x == x)

/-- The second scalar if it is greater, else the first: an undefined scalar on either side leaves the first. -/
def larger (x y : α) : α := if x < y then y else x

/-- The second scalar if it is less, else the first: an undefined scalar on either side leaves the first. -/
def smaller (x y : α) : α := if y < x then y else x

/-- An operation as arithmetic on arrays carries it out, with operands and result flushed. -/
def flushed (f : α → α → α) (x y : α) : α := flush (f (flush x) (flush y))

/-- Whether a scalar is neither zero nor positive nor undefined. -/
def isNegative (x : α) : Bool := decide (x < 0.0)

/-- Whether a scalar is positive. -/
def isPositive (x : α) : Bool := decide (0.0 < x)

/-- Whether a scalar is a zero of either sign. -/
def isZero (x : α) : Bool := x == 0.0

/-- A natural number not below a finite scalar; a number beyond all practical counts for any other. -/
def countFor (x : α) : Nat :=
  if isFinite x then (ceil x).toNat else 18446744073709551616

end Scalar

end Trajectory
