import Mathlib.Tactic
import Trajectory.Proofs.Alike
import Trajectory.Stepper

/-!
Right-hand sides and the state of the caller.

A right-hand side that respects a relation between states of the caller makes the same steps from
tallies that belong together by it (`Stepper.alike_advance`), also if their counts of evaluations
differ. In particular the steps along a right-hand side whose outcomes do not depend on the state of
the caller do not depend on it either (`Stepper.blind_advance`).
-/

namespace Trajectory

variable {ω α β γ : Type}

/-- A right-hand side that does the same from states of the caller that belong together. -/
structure Rate.Respects (W : ω → ω → Prop) (f : Rate ω α) : Prop where
  eval : ∀ t y, (f.eval t y).Respects W
  onCompile : f.onCompile.Respects W

/-- Tallies with states of the caller that belong together. If the evaluations matter, they have counted equally
many. -/
structure Tally.Twins (W : ω → ω → Prop) (counted : Prop) (u v : Tally ω) : Prop where
  world : W u.world v.world
  evaluations : counted → v.evaluations = u.evaluations
  compiled : v.compiled = u.compiled

/-- A right-hand side whose outcomes do not depend on the state of the caller. It may still change
that state. -/
structure Rate.Pure (f : Rate ω α) : Prop where
  eval : ∀ t y w w', ((f.eval t y).runFrom w).1 = ((f.eval t y).runFrom w').1
  onCompile : ∀ w w', (f.onCompile.runFrom w).1 = (f.onCompile.runFrom w').1

/-- Tallies that differ in the state of the caller alone. -/
def Tally.Like (u v : Tally ω) : Prop := v.evaluations = u.evaluations ∧ v.compiled = u.compiled

/-- A computation that does not depend on the state of the caller. -/
def Effect.Blind (x : Effect (Tally ω) α β) : Prop :=
  ∀ u v : Tally ω, u.Like v → (x.runFrom v).1 = (x.runFrom u).1 ∧ (x.runFrom u).2.Like (x.runFrom v).2

open Effect

variable {W : ω → ω → Prop} {counted : Prop}

namespace Tally

theorem alike_outside {P : β → Prop} {x y : Effect ω α β} (alike : Alike W P x y) :
    Alike (Twins W counted) P (outside x) (outside y) :=
  alike_within alike (fun _ _ twins => twins.world) fun _ _ _ _ twins related =>
    ⟨related, twins.evaluations, twins.compiled⟩

theorem alike_count : Alike (Twins W counted) (fun _ => True) (count : Effect (Tally ω) α Unit) count :=
  alike_modify fun _ _ twins => ⟨twins.world, fun same => congrArg (· + 1) (twins.evaluations same), twins.compiled⟩

/-- An evaluation more, where evaluations do not matter. -/
theorem Twins.count {u v : Tally ω} (twins : u.Twins W False v) :
    u.Twins W False { v with evaluations := v.evaluations + 1 } :=
  ⟨twins.world, False.elim, twins.compiled⟩

end Tally

open Tally

variable {f : Rate ω α}

theorem Rate.Respects.alike_call (respects : f.Respects W) (t : α) (y : State α) :
    Alike (Twins W counted) (fun _ => True) (f.call t y) (f.call t y) :=
  alike_bind alike_count fun _ _ => alike_outside (respects.eval t y)

theorem Rate.Respects.alike_compilingCall (respects : f.Respects W) (t : α) (y : State α) :
    Alike (Twins W counted) (fun _ => True) (f.compilingCall t y) (f.compilingCall t y) :=
  alike_bind alike_count fun _ _ => alike_bind (alike_outside respects.onCompile) fun _ _ => alike_lift fun _ _ => trivial

namespace Effect

theorem Blind.runFrom_ok {x : Effect (Tally ω) α β} (blind : x.Blind) {u u' v : Tally ω} {b : β} (like : u.Like v)
    (ran : x.runFrom u = (.ok b, u')) : ∃ v', x.runFrom v = (.ok b, v') ∧ u'.Like v' := by
  obtain ⟨same, like'⟩ := blind u v like
  rw [ran] at same like'
  exact ⟨(x.runFrom v).2, Prod.ext same rfl, like'⟩

/-- A computation is blind if it does the same from all states of the caller. -/
theorem Alike.blind {x : Effect (Tally ω) α β} (alike : Alike (Twins (fun _ _ => True) True) (fun _ => True) x x) :
    x.Blind := by
  intro u v like
  obtain ⟨same, twins, _⟩ := alike u v ⟨trivial, fun _ => like.1, like.2⟩
  exact ⟨same, twins.evaluations trivial, twins.compiled⟩

end Effect

theorem Rate.Pure.respects (settled : f.Pure) : f.Respects fun _ _ => True := by
  constructor
  · exact fun t y w w' _ => ⟨settled.eval t y w' w, trivial, fun _ _ => trivial⟩
  · exact fun w w' _ => ⟨settled.onCompile w' w, trivial, fun _ _ => trivial⟩

theorem Rate.Pure.blind_call (settled : f.Pure) (t : α) (y : State α) : (f.call t y).Blind :=
  (settled.respects.alike_call t y).blind

variable [Scalar α]

/-- The increment of a scheme is alike if its evaluations are. -/
theorem Scheme.alike_increment {R : Tally ω → Tally ω → Prop} (scheme : Scheme)
    {f : α → State α → Effect (Tally ω) α (State α)} (alike : ∀ t y, Alike R (fun _ => True) (f t y) (f t y)) (t : α)
    (y : State α) (h : α) (yp : State α) :
    Alike R (fun _ => True) (scheme.increment f t y h yp) (scheme.increment f t y h yp) := by
  have fit : ∀ l : List (State α), Alike R (fun _ => True) (liftM (requireFit l) : Effect (Tally ω) α Unit)
      (liftM (requireFit l)) := fun l => alike_lift fun _ _ => trivial
  cases scheme with
  | euler => exact alike_bind (fit _) fun _ _ => alike_pure trivial
  | midpoint =>
    refine alike_bind (fit _) fun _ _ => alike_bind (alike _ _) fun k2 _ => ?_
    exact alike_bind (fit _) fun _ _ => alike_pure trivial
  | rk4 =>
    refine alike_bind (fit _) fun _ _ => alike_bind (alike _ _) fun k2 _ => ?_
    refine alike_bind (fit _) fun _ _ => alike_bind (alike _ _) fun k3 _ => ?_
    refine alike_bind (fit _) fun _ _ => alike_bind (alike _ _) fun k4 _ => ?_
    exact alike_bind (fit _) fun _ _ => alike_pure trivial
  | abstract => exact alike_throw _

namespace Stepper

theorem alike_increment (respects : f.Respects W) (stepper : Stepper) (t : α) (y : State α) (h : α) (yp : State α) :
    Alike (Twins W counted) (fun _ => True) (stepper.increment f t y h yp) (stepper.increment f t y h yp) := by
  unfold increment
  cases stepper.compiles with
  | false => exact stepper.scheme.alike_increment respects.alike_call t y h yp
  | true =>
    simp only [Bool.not_true, Bool.false_eq_true, if_false]
    refine alike_get fun u v twins => ?_
    rw [twins.compiled]
    apply alike_ite
    · exact stepper.scheme.alike_increment (fun _ _ => alike_lift fun _ _ => trivial) t y h yp
    · refine alike_bind (stepper.scheme.alike_increment respects.alike_compilingCall t y h yp) fun yNext _ => ?_
      refine alike_bind (alike_modify fun u v twins => ?_) fun _ _ => alike_pure trivial
      exact ⟨twins.world, twins.evaluations, congrArg ((y.shape, yp.shape) :: ·) twins.compiled⟩

/-- What is left of a step once the derivative at its start is known. -/
def proceed (stepper : Stepper) (f : Rate ω α) (t : α) (y : State α) (h : α) (yp : State α) :
    Effect (Tally ω) α (Step α) := do
  let yNext ← stepper.increment f t y h yp
  let ypNext ← f.call (t + h) yNext
  return ⟨t, y, t + h, yNext, yp, ypNext⟩

theorem advance_known (stepper : Stepper) (f : Rate ω α) (t : α) (y : State α) (h : α) (yp : State α) :
    stepper.advance f t y h (some yp) = (do
      let size ← checkStepSize h
      stepper.proceed f t y size yp) := rfl

theorem advance_unknown (stepper : Stepper) (f : Rate ω α) (t : α) (y : State α) (h : α) :
    stepper.advance f t y h none = (do
      let size ← checkStepSize h
      let yp ← f.call t y
      stepper.proceed f t y size yp) := rfl

theorem alike_proceed (respects : f.Respects W) (stepper : Stepper) (t : α) (y : State α) (h : α) (yp : State α) :
    Alike (Twins W counted) (fun _ => True) (stepper.proceed f t y h yp) (stepper.proceed f t y h yp) :=
  alike_bind (stepper.alike_increment respects t y h yp) fun _ _ =>
    alike_bind (respects.alike_call _ _) fun _ _ => alike_pure trivial

/-- A step along a right-hand side that respects a relation is alike from tallies that belong together. -/
theorem alike_advance (respects : f.Respects W) (stepper : Stepper) (t : α) (y : State α) (h : α)
    (yp : Option (State α)) :
    Alike (Twins W counted) (fun _ => True) (stepper.advance f t y h yp) (stepper.advance f t y h yp) := by
  cases yp with
  | some yp =>
    rw [advance_known]
    exact alike_bind (alike_lift fun _ _ => trivial) fun size _ => stepper.alike_proceed respects t y size yp
  | none =>
    rw [advance_unknown]
    refine alike_bind (alike_lift fun _ _ => trivial) fun size _ => ?_
    exact alike_bind (respects.alike_call t y) fun yp _ => stepper.alike_proceed respects t y size yp

end Stepper

/-- A step along a pure right-hand side does not depend on the state of the caller. -/
theorem Stepper.blind_advance (settled : f.Pure) (stepper : Stepper) (t : α) (y : State α) (h : α)
    (yp : Option (State α)) : (stepper.advance f t y h yp).Blind :=
  (stepper.alike_advance settled.respects t y h yp).blind

end Trajectory
