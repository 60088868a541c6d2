import Trajectory.Event.Handler
import Trajectory.Event.Settings
import Trajectory.Window

/-!
The watch kept on one event handler during a run, and the search for its next root.

A channel remembers a reference point, from which the search starts, with the value of the switching function
there; and the last event of its handler, after which it is disarmed until the reference point has left the
re-trigger window. A disarmed channel skips the roots inside that window.

The search samples the switching function between the reference point and the end of the window. Where two
neighbouring samples differ in sign a root is isolated; if it is not acceptable, the search goes on behind it
towards the same sample. A start on a zero of the switching function takes its sign from just ahead.
-/

namespace Trajectory

variable {ω α : Type}

/-- The watch kept on one handler. -/
structure Channel (ω α : Type) where
  handler : Handler ω α
  settings : Settings α
  /-- The reference point: the last point known to be behind all reported roots. -/
  tRef : α
  /-- The value of the switching function at the reference point. -/
  gRef : α
  /-- The time of the handler's last event. -/
  lastEvent : Option α
  /-- Whether roots in the re-trigger window of the last event are events again. -/
  armed : Bool

/-- Whether the first time lies strictly after the second in the direction of a run. -/
def isAfter [Scalar α] (forward : Bool) (t1 t2 : α) : Bool :=
  if forward then decide (t2 < t1) else decide (t1 < t2)

/-- A root of a switching function, with the direction in which it crosses zero there. -/
structure Crossing (α : Type) where
  root : α
  /-- Whether the switching function is negative before it. -/
  increasing : Bool
deriving DecidableEq

/-- What the search between two samples has found. -/
inductive Finding (α : Type) where
  | crossing (found : Crossing α)
  /-- Nothing to report up to the second sample. -/
  | clear
deriving DecidableEq

namespace Channel

variable [Scalar α]

/-- A channel before its first run: nothing is known yet. -/
def create (handler : Handler ω α) (settings : Settings α) : Channel ω α :=
  ⟨handler, settings, Scalar.undefined, Scalar.undefined, none, true⟩

/-- Whether a time lies in the re-trigger window of the last event. -/
def inWindow (c : Channel ω α) (t : α) : Bool :=
  match c.lastEvent with
  | some last => decide (Scalar.abs (t - last) ≤ c.settings.window)
  | none => false

/-- Whether a root is an event: it is not one that repeats the last event, and its direction is wanted. -/
def accepts (c : Channel ω α) (found : Crossing α) : Bool :=
  !(!c.armed && c.inWindow found.root) && c.handler.wants found.increasing

/-- The number of equal intervals into which the way from the reference point to `stop` is divided: the least
that makes none longer than permitted. -/
def intervals (c : Channel ω α) (stop : α) : Except (Error α) Nat :=
  let way := Scalar.abs (stop - c.tRef)
  match c.settings.maxCheckInterval with
  | none => if Scalar.isFinite way then .ok 1 else .error .undefinedCount
  | some longest =>
    let ratio := way / longest
    if Scalar.isUndefined ratio then .error .undefinedCount
    else if !Scalar.isFinite ratio then .error .infiniteCount
    else .ok (max 1 (Scalar.ceil ratio).toNat)

/-- The sample times behind the reference point: the ends of `n` equal intervals, the last of them `stop`. -/
def samples (c : Channel ω α) (stop : α) (n : Nat) : List α :=
  let dt := (stop - c.tRef) / Scalar.ofNat n
  (List.range (n - 1)).map (fun k => c.tRef + Scalar.ofNat (k + 1) * dt) ++ [stop]

/-- Where the search between two samples starts, with the value there: a start on a zero moves ahead by the
tolerance, but not past the second sample. -/
def nudged (c : Channel ω α) (forward : Bool) (g : α → Effect ω α α) (ta ga tb : α) :
    Effect ω α (α × α) :=
  if Scalar.isZero ga && !(ta == tb) then do
    let offset := Scalar.smaller c.settings.convergence (Scalar.abs (tb - ta))
    let ta := if forward then ta + offset else ta - offset
    let ga ← g ta
    return (ta, ga)
  else
    pure (ta, ga)

/-- Whether values at the two ends of an interval show a root: the first is not zero, and the second is zero or of
the other sign. -/
def crosses (ga gb : α) : Bool :=
  !Scalar.isZero ga && (Scalar.isZero gb || Scalar.isPositive ga != Scalar.isPositive gb)

/-- Searches between two samples for a root to report, skipping at most so many others. -/
def between (c : Channel ω α) (forward : Bool) (g : α → Effect ω α α) (tb gb : α) :
    Nat → α → α → Effect ω α (Finding α)
  | 0, _, _ => throw .stalled
  | rounds + 1, ta, ga => do
    let (ta, ga) ← c.nudged forward g ta ga tb
    if crosses ga gb then
      let root ← c.settings.search.solve g ta tb (some ga) (some gb)
      let found : Crossing α := ⟨root, Scalar.isNegative ga⟩
      if c.accepts found then
        return .crossing found
      else
        let gRoot ← g root
        if root == tb then return .clear
        else c.between forward g tb gb rounds root gRoot
    else
      return .clear

/-- How many roots can be skipped between two samples: each lies at least a quarter of the tolerance behind the
one before. -/
def roundsBetween (c : Channel ω α) (ta tb : α) : Nat :=
  4 * Scalar.countFor (Scalar.abs (tb - ta) / c.settings.convergence) + 8

/-- Searches sample by sample. -/
def through (c : Channel ω α) (forward : Bool) (g : α → Effect ω α α) :
    List α → α → α → Effect ω α (Option (Crossing α))
  | [], _, _ => pure none
  | tb :: rest, ta, ga => do
    let gb ← g tb
    match ← c.between forward g tb gb (c.roundsBetween ta tb) ta ga with
    | .crossing found => return some found
    | .clear => c.through forward g rest tb gb

variable [Spacing α]

/-- The switching function along the dense output of a window. -/
def along (c : Channel ω α) (w : Window α) (t : α) : Effect ω α α := do
  let y ← w.stateAt t
  c.handler.g t y

/-- The first acceptable root between the reference point and the end of a window. -/
def firstRoot (c : Channel ω α) (forward : Bool) (w : Window α) :
    Effect ω α (Option (Crossing α)) := do
  if !isAfter forward w.stop c.tRef then return none
  let n ← c.intervals w.stop
  c.through forward (c.along w) (c.samples w.stop n) c.tRef c.gRef

end Channel

end Trajectory
