import Mathlib.Tactic
import Trajectory.Proofs.Symmetry.Engine
import Trajectory.Proofs.Timer

/-!
Runs in the other direction.

If time is taken with the other sign in the right-hand side, in the handlers and in the bounds of a
run, the run goes the other way and does the same: it ends in the same way at the time of opposite
sign, with the same journal but for the sign of its times, and after as many evaluations and accepted
pieces (`Engine.integrate_reversed`). So nothing that a run does depends on its direction.
-/

namespace Trajectory

variable {ω : Type}

/-- Time is taken with the other sign. -/
def Symmetry.reversed : Symmetry where
  sign := -1
  factor _ := 1
  unit := Or.inr rfl
  nonzero _ := one_ne_zero

/-- The right-hand side of the run in the other direction. -/
def Equation.reversed (equation : Equation ω Rat) : Equation ω Rat where
  eval t y := (fun k => -k) <$> equation.eval (-t) y
  onCompile := equation.onCompile
  compiled t y := (equation.compiled (-t) y).map fun k => -k
  dimension := equation.dimension
  label := equation.label

/-- The handler of the run in the other direction. -/
def Handler.reversed (handler : Handler ω Rat) : Handler ω Rat where
  init t y target := handler.init (-t) y (-target)
  g t y := handler.g (-t) y
  eventOccurred t y increasing := handler.eventOccurred (-t) y increasing
  resetState t y := handler.resetState (-t) y
  direction := handler.direction

/-- The engine for the run in the other direction, with observers of its own. The account of its last run
is that of a run in the other direction. -/
def Engine.reversed (e : Engine ω Rat) (observers : List (Observer ω Rat)) : Engine ω Rat :=
  { e with
    watches := e.watches.map fun watch => (watch.1.reversed, watch.2)
    observers := observers
    journal := e.journal.map (Entry.image .reversed) }

namespace Symmetry

@[simp] theorem time_reversed (t : Rat) : reversed.time t = -t := neg_one_mul t

@[simp] theorem value_reversed (i : Nat) (x : Rat) : reversed.value i x = x := one_mul x

@[simp] theorem turn_reversed (i : Nat) (increasing : Bool) : reversed.turn i increasing = increasing :=
  if_pos one_pos

@[simp] theorem rate_reversed (k : State Rat) : reversed.rate k = -k := by
  refine Tensor.ext rfl ?_
  rw [rate, Tensor.entries_smul, Tensor.entries_neg]
  exact List.map_congr_left fun x _ => neg_one_mul x

end Symmetry

theorem Equation.image_reversed (equation : Equation ω Rat) : equation.image .reversed = equation.reversed := by
  simp only [image, Rate.image, reversed, Symmetry.time_reversed, funext Symmetry.rate_reversed]

theorem Handler.image_reversed (handler : Handler ω Rat) (i : Nat) :
    handler.image .reversed i = handler.reversed := by
  have same : Symmetry.reversed.value i = id := funext (Symmetry.value_reversed i)
  have direction : (if 0 < Symmetry.reversed.factor i then handler.direction else -handler.direction) =
      handler.direction := if_pos one_pos
  simp only [image, reversed, Symmetry.time_reversed, Symmetry.turn_reversed, same, id_map, direction]

namespace Engine

variable [Spacing Rat] {e : Engine ω Rat}

/-- The run of a usable engine with a positive step size, and the run in the other direction. Both return
at times of opposite sign with the same state, or both fail in the same way, or both are refused; and
the account of the second is that of the first with the sign of all times changed. Observers that are
images of each other have heard the images of each other's reports. -/
theorem integrate_reversed (usable : e.Usable) (positive : 0 < e.stepSize) {observers : List (Observer ω Rat)}
    (heard : List.Forall₂ (Observer.Image .reversed False) e.observers observers) (equation : Equation ω Rat) (t0 : Rat)
    (y0 : State Rat) (target : Rat) (w : ω) :
    let run := (integrate equation t0 y0 target).runFrom (e, w)
    let back := (integrate equation.reversed (-t0) y0 (-target)).runFrom (e.reversed observers, w)
    Matched (Error.Alike .reversed) (fun p p' => p' = (-p.1, p.2)) run.1 back.1 ∧
      back.2.1.journal = run.2.1.journal.map (Entry.image .reversed) ∧
      back.2.1.evaluations = run.2.1.evaluations ∧ back.2.1.accepted = run.2.1.accepted ∧
      back.2.1.status = run.2.1.status ∧
      List.Forall₂ (Observer.Image .reversed False) run.2.1.observers back.2.1.observers ∧ back.2.2 = run.2.2 := by
  have image : e.Image .reversed (e.reversed observers) :=
    ⟨rfl, rfl, rfl, .of_map (fun i watch => by rw [watch.1.image_reversed]) e.watches 0, .of_forall₂ heard 0,
      rfl, rfl, rfl, rfl⟩
  have mirrored := agree_integrate usable (Or.inr positive) image equation t0 y0 target w
  rw [equation.image_reversed, Symmetry.time_reversed, Symmetry.time_reversed] at mirrored
  obtain ⟨matched, account, same⟩ := mirrored
  refine ⟨matched.mono fun p p' related => ?_, account.journal, account.evaluations, account.accepted, account.status,
    account.observers.forall₂, same⟩
  rw [related, Symmetry.row, Symmetry.time_reversed]

omit [Spacing Rat] in
/-- A run past the fall of a dip, and the run past the dip that lies on the other side of zero. -/
theorem dip_reversed :
    letI := Spacing.gapless
    let dip := (timed 1 [(.dip (1 / 3) 2, ⟨none, 1 / 100, 100, none⟩)]).addObserver (.recorder .empty)
    let run := (integrate .steady 0 (.ofList [0]) 1).runFrom (dip, ())
    let back := (integrate Equation.steady.reversed (-0) (.ofList [0]) (-1)).runFrom
      (dip.reversed [.recorder .empty], ())
    ∃ t y, run.1 = .ok (t, y) ∧ back.1 = .ok (-t, y) ∧ run.2.1.journal.notifications ≠ [] ∧
      back.2.1.journal = run.2.1.journal.map (Entry.image .reversed) := by
  let := Spacing.gapless
  intro dip run back
  have usable : dip.Usable := (usable_timed (by decide +kernel) (by decide +kernel)).addObserver _
  have heard : List.Forall₂ (Observer.Image .reversed False) dip.observers [.recorder .empty] :=
    .cons (.recorder .empty) .nil
  obtain ⟨matched, journal, _⟩ := integrate_reversed usable (by decide) heard .steady 0 (.ofList [0]) 1 ()
  have returned : run.1.isOk = true := by decide +kernel
  have told : run.2.1.journal.notifications ≠ [] := by decide +kernel
  have outcomes : Matched (Error.Alike .reversed) (fun p p' => p' = (-p.1, p.2)) run.1 back.1 := matched
  generalize run.1 = r at returned outcomes
  generalize back.1 = r' at outcomes
  cases outcomes with
  | error _ => cases returned
  | @ok final _ related => exact ⟨final.1, final.2, rfl, congrArg _ related, told, journal⟩

end Engine

end Trajectory
