import Trajectory.Binary64

/-!
The shortest decimal that identifies a double.

Every double stands for an interval of reals, those that round to it: it reaches half-way to both neighbours, and
contains its two ends exactly if the significand is even. The shortest decimal is the one with the fewest
significant digits inside that interval, and among those the nearest to the double itself; at equal distance the
one whose last digit is even. A grid of decimals with `n` significant digits has a point in the interval only if
one of the double's two neighbours on the grid lies in it, so these two are all that has to be tried.
-/

namespace Trajectory.Decimal

open Binary64 (Parts twoPow)

/-- A positive decimal `digits · 10 ^ exponent`. -/
structure Digits where
  /-- The significant digits, read as one number. -/
  digits : Nat
  /-- The power of ten that scales them. -/
  exponent : Int
deriving DecidableEq

/-- A power of ten. -/
def tenPow (n : Nat) : Nat := Nat.pow 10 n

/-- The number of decimal digits of a natural number. -/
def width (n : Nat) : Nat := (Nat.toDigits 10 n).length

/-- The power of ten of the leading digit of the positive fraction `num / den`. -/
def decade (num den : Nat) : Int :=
  if den ≤ num then (width (num / den) : Int) - 1
  else -(width ((den + num - 1) / num - 1) : Int)

/-- A positive double in units of a quarter of its significand's last place, against one unit of the decimal
grid `10 ^ k`: the double is `4 · significand · fst / snd` grid units. -/
def gridUnits (p : Parts) (k : Int) : Nat × Nat :=
  let two := p.exponent - 2
  (twoPow two.toNat * tenPow (-k).toNat, twoPow (-two).toNat * tenPow k.toNat)

/-- The nearer of a double's two neighbours on the grid `10 ^ k`, of those that round to the double. -/
def onGrid? (p : Parts) (k : Int) : Option Digits :=
  let (a, b) := gridUnits p k
  let value := 4 * p.significand * a
  let low := (4 * p.significand - if p.isBoundary then 1 else 2) * a
  let high := (4 * p.significand + 2) * a
  let even := p.significand % 2 == 0
  let rounds (d : Nat) : Bool :=
    if even then decide (low ≤ d * b) && decide (d * b ≤ high)
    else decide (low < d * b) && decide (d * b < high)
  let below := value / b
  let above := below + 1
  match decide (0 < below) && rounds below, rounds above with
  | true, true =>
    let down := value - below * b
    let up := above * b - value
    let pickBelow := decide (down < up) || (down == up && below % 2 == 0)
    some ⟨if pickBelow then below else above, k⟩
  | true, false => some ⟨below, k⟩
  | false, true => some ⟨above, k⟩
  | false, false => none

/-- Tries the grids of `n`, `n + 1`, … significant digits, `tries` of them. -/
def firstOnGrid? (p : Parts) (lead : Int) (n : Nat) : Nat → Option Digits
  | 0 => none
  | tries + 1 =>
    match onGrid? p (lead - n + 1) with
    | some d => some d
    | none => firstOnGrid? p lead (n + 1) tries

/-- The shortest decimal of a positive double. Seventeen digits always suffice. -/
def shortest (p : Parts) : Digits :=
  let num := p.significand * twoPow p.exponent.toNat
  let den := twoPow (-p.exponent).toNat
  (firstOnGrid? p (decade num den) 1 17).getD ⟨p.significand, 0⟩

end Trajectory.Decimal
