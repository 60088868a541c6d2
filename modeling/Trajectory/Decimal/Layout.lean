import Trajectory.Decimal.Shortest

/-!
How a double is written: its shortest decimal, laid out with or without a power of ten.
-/

namespace Trajectory.Decimal

/-- The choices that turn significant digits into text. -/
structure Layout where
  /-- The least power of ten of a leading digit that is written without an exponent. -/
  leastPlain : Int
  /-- The least power of ten of a leading digit that is again written with an exponent. -/
  leastScaled : Int
  /-- The least number of digits in an exponent. -/
  exponentWidth : Nat
  infinity : String
  undefined : String
deriving DecidableEq

/-- Numbers from a ten-thousandth up to, but not including, ten to the sixteenth are written plainly and always
with a fraction; the others carry a signed exponent of two digits or more. -/
def reportLayout : Layout := ⟨-4, 16, 2, "inf", "nan"⟩

/-- Removes trailing zeros of a digit sequence, but not its first digit. -/
def trimZeros (ds : List Char) : List Char :=
  match (ds.reverse.dropWhile (· == '0')).reverse with
  | [] => ['0']
  | rest => rest

/-- Writes a number from its significant digits and the power of ten of the leading one. -/
def Layout.place (layout : Layout) (ds : List Char) (lead : Int) : List Char :=
  if layout.leastPlain ≤ lead ∧ lead < layout.leastScaled then
    if lead < 0 then
      '0' :: '.' :: List.replicate (-lead - 1).toNat '0' ++ ds
    else
      let whole := lead.toNat + 1
      let fraction := ds.drop whole
      ds.take whole ++ List.replicate (whole - ds.length) '0' ++
        '.' :: (if fraction.isEmpty then ['0'] else fraction)
  else
    let exponent := Nat.toDigits 10 lead.natAbs
    ds.take 1 ++ (if (ds.drop 1).isEmpty then [] else '.' :: ds.drop 1) ++
      'e' :: (if lead < 0 then '-' else '+') ::
        List.replicate (layout.exponentWidth - exponent.length) '0' ++ exponent

/-- Writes a double. A zero keeps its sign. -/
def Layout.write (layout : Layout) (x : Float) : String :=
  if x.isNaN then layout.undefined
  else
    let parts := Binary64.parts x
    let magnitude : String :=
      if x.isInf then layout.infinity
      else if parts.significand == 0 then "0.0"
      else
        let short := shortest parts
        let ds := Nat.toDigits 10 short.digits
        String.ofList (layout.place (trimZeros ds) (short.exponent + ds.length - 1))
    if parts.negative then "-" ++ magnitude else magnitude

/-- The text of a double in reports and error messages. -/
def text (x : Float) : String := reportLayout.write x

end Trajectory.Decimal
