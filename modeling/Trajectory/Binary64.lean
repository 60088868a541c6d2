/-!
The makeup of a double-precision number: sign, significand and exponent, as laid out in its 64 bits.

`Binary64.parts` reads a finite number as an exact integer multiple of a power of two, which makes exact what
floating-point operations can only approximate: its integer ceiling and its shortest decimal.
-/

namespace Trajectory.Binary64

/-- A finite double as `± significand · 2 ^ exponent`. -/
structure Parts where
  /-- The sign bit. -/
  negative : Bool
  /-- The integer significand, at most 53 bits long. -/
  significand : Nat
  /-- The power of two that scales the significand. -/
  exponent : Int
deriving DecidableEq

/-- A power of two. -/
def twoPow (n : Nat) : Nat := Nat.pow 2 n

/-- The parts of a finite double. An exponent field of zero marks the numbers without a leading one bit. -/
def parts (x : Float) : Parts :=
  let bits := x.toBits.toNat
  let fraction := bits % twoPow 52
  let field : Nat := bits / twoPow 52 % twoPow 11
  let negative := bits / twoPow 63 == 1
  if field == 0 then ⟨negative, fraction, -1074⟩
  else ⟨negative, fraction + twoPow 52, Int.ofNat field - 1075⟩

/-- Whether the lower neighbour of a double lies at half the distance of the upper one, as it does just above a
power of two. -/
def Parts.isBoundary (p : Parts) : Bool :=
  p.significand == twoPow 52 && decide (-1074 < p.exponent)

/-- The least integer not below the number. -/
def Parts.ceil (p : Parts) : Int :=
  let signed : Int := if p.negative then -(p.significand : Int) else p.significand
  if 0 ≤ p.exponent then signed * twoPow p.exponent.toNat
  else -((-signed) / twoPow (-p.exponent).toNat)

/-- The greatest integer not above the number. -/
def Parts.floor (p : Parts) : Int :=
  let signed : Int := if p.negative then -(p.significand : Int) else p.significand
  if 0 ≤ p.exponent then signed * twoPow p.exponent.toNat
  else signed / twoPow (-p.exponent).toNat

/-- The distance from a double's magnitude to the next larger double; at the largest finite double, the distance
to the next smaller one. -/
def ulp (x : Float) : Float :=
  let m := x.abs
  if !m.isFinite then m
  else
    let next := Float.ofBits (m.toBits + 1)
    if next.isFinite then next - m else m - Float.ofBits (m.toBits - 1)

/-- The least magnitude of a double with a leading one bit. -/
def leastNormal : Float := Float.ofBits 0x0010000000000000

/-- A double, or the zero of its sign if it has no leading one bit. -/
def flush (x : Float) : Float := if x.abs < leastNormal then x * 0.0 else x

end Trajectory.Binary64
