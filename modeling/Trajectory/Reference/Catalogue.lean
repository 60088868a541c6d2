import Trajectory.Reference.Problem

/-!
The reference problems: decay forward and backward in time, growth with polynomial coefficients, a constant
rate, a harmonic oscillator, and an oscillator that bounces at every zero.
-/

namespace Trajectory.Reference

variable {ω α : Type} [Analytic α]

/-- Succeeds if a power of a finite time stays finite. -/
def powerDomain (n : Nat) (t : α) : Except (Error α) Unit :=
  if Scalar.isFinite t && !Scalar.isFinite (Analytic.pow t n) then .error .powerRange else .ok ()

/-- Succeeds if a time can be taken as an angle. -/
def angleDomain (t : α) : Except (Error α) Unit :=
  if !Scalar.isFinite t && !Scalar.isUndefined t then .error .angleRange else .ok ()

/-- The decay `y' = -y` of two quantities to a final time. -/
def decay (name : String) (tFinal : α) : Problem ω α :=
  let y0 : State α := .ofList [1.0, 0.1]
  { name := name
    t0 := 0.0
    tFinal := tFinal
    y0 := y0
    rate := fun _ y => -y
    solution := fun t => Analytic.exp (-(t - 0.0)) * y0
    handlers := []
    eventTimes := []
    rateDomain := Problem.everywhere
    stateDomain := Problem.everywhere
    solutionDomain := Problem.everywhere }

/-- Decay over four units of time. -/
def exponentialDecay : Problem ω α := decay "ExponentialDecay" 4.0

/-- Decay followed backward, to earlier times. -/
def backwardDecay : Problem ω α := decay "BackwardDecay" (-4.0)

/-- The constant rate `y' = 1`, with solution `t`. -/
def constantRate : Problem ω α :=
  let y0 : State α := .ofList [0.0]
  { name := "ConstantRate"
    t0 := 0.0
    tFinal := 5.0
    y0 := y0
    rate := fun _ y => y.map fun _ => 1.0
    solution := fun t => y0 + Tensor.ofList [t - 0.0]
    handlers := []
    eventTimes := []
    rateDomain := Problem.everywhere
    stateDomain := Problem.everywhere
    solutionDomain := Problem.everywhere }

/-- The growth `y' = t³ y`, with solution `exp (t⁴ / 4)`. -/
def polynomialGrowth : Problem ω α :=
  let y0 : State α := .ofList [1.0]
  { name := "PolynomialGrowth"
    t0 := 0.0
    tFinal := 1.5
    y0 := y0
    rate := fun t y => Analytic.pow t 3 * y
    solution := fun t => Analytic.exp ((Analytic.pow t 4 - Analytic.pow 0.0 4) / 4.0) * y0
    handlers := []
    eventTimes := []
    rateDomain := powerDomain 3
    stateDomain := Problem.everywhere
    solutionDomain := powerDomain 4 }

/-- Succeeds for states with a first part. -/
def partDomain (y : State α) : Except (Error α) Unit :=
  match y.shape with
  | [] | 0 :: _ => .error .noEntry
  | _ => .ok ()

/-- The right-hand side of the harmonic oscillator: the second part of the state above the first one, negated. -/
def oscillation (y : State α) : State α :=
  let s := (y.part 0).shape
  .tabulate (2 :: s) fun k =>
    if k < s.size then (y.part 1).get k else -(y.part 0).get (k - s.size)

/-- The harmonic oscillator, with solution `(cos t, -sin t)`. -/
def harmonicOscillator : Problem ω α where
  name := "HarmonicOscillator"
  t0 := 0.0
  tFinal := 5.0
  y0 := .ofList [1.0, 0.0]
  rate := fun _ y => oscillation y
  solution := fun t => .ofList [Analytic.cos t, -Analytic.sin t]
  handlers := []
  eventTimes := []
  rateDomain := Problem.everywhere
  stateDomain := partDomain
  solutionDomain := angleDomain

/-- The time at which the bouncing oscillator is stopped. -/
def stopTime : α := 12.0

/-- Reverses the state at a bounce. -/
def bounce : SwitchingFunction ω α where
  g := fun _ y => liftM (y.entry 0)
  decision := .always .resetState
  reset := some fun _ y => pure (-y)
  direction := 0
  name := "bounce"

/-- Ends the run of the bouncing oscillator. -/
def stopping : SwitchingFunction ω α where
  g := fun t _ => pure (t - stopTime)
  decision := .always .stop
  reset := none
  direction := 0
  name := "stop"

/-- A harmonic oscillator whose state is reversed at every zero of its position, so that the position is
`|sin t|`. A second handler stops the run before the nominal final time. -/
def bouncingSine : Problem ω α where
  name := "BouncingSine"
  t0 := 3.0
  tFinal := 15.0
  y0 := .ofList [Analytic.sin 3.0, Analytic.cos 3.0]
  rate := fun _ y => oscillation y
  solution := fun t =>
    let s := Analytic.sin t
    let sign : α := if 0.0 ≤ s then 1.0 else -1.0
    .ofList [Scalar.abs s, sign * Analytic.cos t]
  handlers := [bounce, stopping]
  eventTimes := [Analytic.pi, 2.0 * Analytic.pi, 3.0 * Analytic.pi, stopTime]
  rateDomain := Problem.everywhere
  stateDomain := partDomain
  solutionDomain := angleDomain

/-- All reference problems. -/
def catalogue : List (Problem ω α) :=
  [exponentialDecay, backwardDecay, polynomialGrowth, constantRate, harmonicOscillator, bouncingSine]

/-- The reference problem of a given name. -/
def find? (name : String) : Option (Problem ω α) := catalogue.find? (·.name == name)

end Trajectory.Reference
