import Trajectory.Effect
import Trajectory.Step

/-!
Bracketed root search by Brent's method: bisection, with secant and inverse quadratic steps where they pay.

A `Bracket` holds three points with their function values: the current iterate, the previous one, and the
blocking one, which is the other end of the interval known to contain a sign change. Each round first restores
these roles (`Bracket.renewed`, `Bracket.ordered`), then either answers or moves the current point towards the
blocking one. The answer is the end of the final interval on the side of the root where the search ended, or an
exact root if one was met.
-/

namespace Trajectory

variable {ω α : Type}

/-- The tolerance and the budget of a root search. -/
structure RootSearch (α : Type) where
  /-- The absolute tolerance on the abscissa. -/
  tolerance : α
  /-- The greatest number of evaluations besides those at the two ends. -/
  budget : Nat
deriving DecidableEq

/-- The relative part of the tolerance: four units of double-precision rounding. -/
def relativeTolerance [Scalar α] : α := 4.0 * 2.220446049250313e-16

/-- The points of a search and the lengths of its last two moves. -/
structure Bracket (α : Type) where
  /-- The previous iterate. -/
  xPre : α
  fPre : α
  /-- The current iterate. -/
  xCur : α
  fCur : α
  /-- The blocking end of the interval. -/
  xBlk : α
  fBlk : α
  /-- The signed length of the move before the last. -/
  sPre : α
  /-- The signed length of the last move. -/
  sCur : α
deriving DecidableEq

namespace Bracket

variable [Scalar α]

/-- The points at the beginning of a search from `a` to `b`. -/
def initial (a fa b fb : α) : Bracket α := ⟨a, fa, b, fb, a, fa, b - a, b - a⟩

/-- Takes the previous iterate as the blocking end if the function changes sign between it and the current
one. -/
def renewed (b : Bracket α) : Bracket α :=
  if !Scalar.isZero b.fPre && !Scalar.isZero b.fCur &&
      Scalar.isPositive b.fPre != Scalar.isPositive b.fCur then
    { b with xBlk := b.xPre, fBlk := b.fPre, sPre := b.xCur - b.xPre, sCur := b.xCur - b.xPre }
  else b

/-- Makes the end with the smaller value the current iterate. -/
def ordered (b : Bracket α) : Bracket α :=
  if Scalar.abs b.fBlk < Scalar.abs b.fCur then
    { b with xPre := b.xCur, xCur := b.xBlk, xBlk := b.xCur,
             fPre := b.fCur, fCur := b.fBlk, fBlk := b.fCur }
  else b

/-- Half the tolerance at the current iterate. -/
def margin (tolerance : α) (b : Bracket α) : α :=
  0.5 * (tolerance + relativeTolerance * Scalar.abs b.xCur)

/-- Half the way from the current iterate to the blocking end. -/
def halfway (b : Bracket α) : α := 0.5 * (b.xBlk - b.xCur)

/-- The answer, if the search is over: the current iterate is an exact root, or the interval is short. The end
whose value is positive exactly if `endPositive` says so is the one to report. -/
def answer? (tolerance : α) (endPositive : Bool) (b : Bracket α) : Option α :=
  if Scalar.isZero b.fCur || decide (Scalar.abs b.halfway < b.margin tolerance) then
    if Scalar.isZero b.fCur || Scalar.isPositive b.fCur == endPositive then some b.xCur
    else some b.xBlk
  else none

/-- The move to the root of the line or of the inverse parabola through the known points. -/
def interpolated (b : Bracket α) : Except (Error α) α :=
  if b.xPre == b.xBlk then
    quotient ((-b.fCur) * (b.xCur - b.xPre)) (b.fCur - b.fPre)
  else do
    let dPre ← quotient (b.fPre - b.fCur) (b.xPre - b.xCur)
    let dBlk ← quotient (b.fBlk - b.fCur) (b.xBlk - b.xCur)
    quotient ((-b.fCur) * (b.fBlk * dBlk - b.fPre * dPre)) (dBlk * dPre * (b.fBlk - b.fPre))

/-- The lengths of the last two moves once the next one is chosen: an interpolated move if the previous moves
shrank the value and it is clearly shorter than a bisection allows, else a bisection. -/
def strides (tolerance : α) (b : Bracket α) : Except (Error α) (α × α) :=
  let delta := b.margin tolerance
  let half := b.halfway
  if delta < Scalar.abs b.sPre ∧ Scalar.abs b.fCur < Scalar.abs b.fPre then do
    let s ← b.interpolated
    if 2.0 * Scalar.abs s < Scalar.smaller (Scalar.abs b.sPre) (3.0 * Scalar.abs half - delta) then
      return (b.sCur, s)
    else
      return (half, half)
  else
    .ok (half, half)

/-- The next abscissa for a move: at least half the tolerance towards the blocking end. -/
def target (tolerance : α) (b : Bracket α) (s : α) : α :=
  let delta := b.margin tolerance
  if delta < Scalar.abs s then b.xCur + s
  else if Scalar.isPositive b.halfway then b.xCur + delta
  else b.xCur + -delta

/-- Chooses the next abscissa. The value there is not known yet and still the old one. -/
def advanced (tolerance : α) (b : Bracket α) : Except (Error α) (Bracket α) := do
  let (sPre, sCur) ← b.strides tolerance
  return { b with xPre := b.xCur, fPre := b.fCur, sPre := sPre, sCur := sCur,
                  xCur := b.target tolerance sCur }

end Bracket

namespace RootSearch

variable [Scalar α]

/-- A search with a positive tolerance and a positive budget. -/
def create (tolerance : α) (budget : Int) : Except (Error α) (RootSearch α) :=
  if ¬ 0.0 < tolerance then .error (.tolerance tolerance)
  else if budget < 1 then .error (.searchBudget budget)
  else .ok ⟨tolerance, budget.toNat⟩

/-- Searches on with so many evaluations left. -/
def refine (search : RootSearch α) (f : α → Effect ω α α) (endPositive : Bool) (left : Nat)
    (b : Bracket α) : Effect ω α α :=
  let b := b.renewed.ordered
  match b.answer? search.tolerance endPositive with
  | some x => pure x
  | none =>
    match left with
    | 0 => throw (.notIsolated b.xCur b.xBlk search.budget)
    | left + 1 => do
      let b ← b.advanced search.tolerance
      let y ← f b.xCur
      search.refine f endPositive left { b with fCur := y }

/-- Finds a root between `a` and `b`, where `f` has opposite signs; its values there may be given. The answer
lies on the side of `b`. -/
def solve (search : RootSearch α) (f : α → Effect ω α α) (a b : α) (fa fb : Option α) :
    Effect ω α α := do
  let fa ← match fa with
    | some y => pure y
    | none => f a
  let fb ← match fb with
    | some y => pure y
    | none => f b
  if Scalar.isZero fa then return a
  if Scalar.isZero fb then return b
  if Scalar.isNegative fa == Scalar.isNegative fb then
    throw (.notBracketed a fa b fb)
  search.refine f (Scalar.isPositive fb) search.budget (.initial a fa b fb)

end RootSearch

end Trajectory
