import Mathlib.Tactic
import Trajectory.Proofs.Outcome
import Trajectory.Run.Engine

/-!
The shapes of the states of a step, in any kind of scalars.

A right-hand side that answers to states of a shape with derivatives of that shape (`Rate.Answers`) leaves no stage of
a scheme unfit, and leads from a state of the shape to states and derivatives of it (`Stepper.ends_advance`). All
that the dense output of such a step answers has the shape, too (`Window.Uniform.stateAt_shape`).
-/

namespace Trajectory

variable {σ ω α : Type} {shape : Shape}

section

variable {equation : Equation ω α} {y y₀ : State α}

theorem Equation.accepts_iff (accepted : equation.accepts y₀ = true) :
    equation.accepts y = true ↔ y.shape = y₀.shape := by
  unfold accepts at accepted ⊢
  cases first : y₀.shape with
  | nil => simp [first] at accepted
  | cons n rest =>
    cases rest with
    | cons m rest => simp [first] at accepted
    | nil =>
      simp only [first, beq_iff_eq] at accepted
      rw [accepted]
      split
      · rename_i k same
        rw [same, beq_iff_eq, Int.natCast_inj]
        constructor
        · rintro rfl
          rfl
        · intro equal
          exact (List.cons.inj equal).1.symm
      · rename_i other
        refine iff_of_false Bool.false_ne_true fun same => other n same

theorem Equation.requireSize_ok {what : Quantity} :
    equation.requireSize what y = .ok () ↔ equation.accepts y = true := by
  unfold requireSize
  split
  · rename_i accepted
    exact iff_of_true rfl accepted
  · rename_i refused
    exact iff_of_false (by simp) refused

end

variable [Scalar α]

theorem Engine.accepts_of_prepare {engine : Engine ω α} {equation : Equation ω α} {course : Course ω α} {t0 target : α}
    {y0 : State α} (prepared : engine.prepare equation t0 y0 target = .ok course) : equation.accepts y0 = true := by
  rw [prepare, except_bind_ok] at prepared
  obtain ⟨_, _, prepared⟩ := prepared
  obtain ⟨_, sized, _⟩ := except_bind_ok.mp prepared
  exact Equation.requireSize_ok.mp sized

theorem Tensor.shape_add_of {x y : State α} (left : x.shape = shape) (right : y.shape = shape) :
    (x + y).shape = shape :=
  (shape_add (left.trans right.symm)).trans left

/-- A window whose step has states and derivatives of one shape, like the states at its bounds. -/
structure Window.Uniform (shape : Shape) (w : Window α) : Prop where
  y : w.step.y.shape = shape
  yNext : w.step.yNext.shape = shape
  yp : w.step.yp.shape = shape
  ypNext : w.step.ypNext.shape = shape
  yStart : w.yStart.shape = shape
  yStop : w.yStop.shape = shape

namespace Window.Uniform

variable [Spacing α] {w v : Window α} {start stop t : α} {y : State α}

/-- What a uniform window answers has the shape of its states. -/
theorem stateAt_shape (uniform : w.Uniform shape) (answered : w.stateAt t = .ok y) : y.shape = shape := by
  rw [Window.stateAt, except_bind_ok] at answered
  obtain ⟨_, _, answered⟩ := answered
  split at answered
  · cases answered
    exact uniform.yStart
  · split at answered
    · cases answered
      exact uniform.yStop
    · obtain ⟨θ, _, answered⟩ := except_bind_ok.mp answered
      obtain ⟨_, _, answered⟩ := except_bind_ok.mp answered
      cases answered
      exact Tensor.shape_add_of (Tensor.shape_add_of uniform.y uniform.yNext)
        (Tensor.shape_add_of uniform.yp uniform.ypNext)

end Window.Uniform

/-- A right-hand side whose calls, compiled or not, answer to states of a shape with derivatives of that shape, or
fail in some way. -/
structure Rate.Answers (shape : Shape) (bad : Error α → Prop) (f : Rate ω α) : Prop where
  call : ∀ t y, y.shape = shape → (f.call t y).Ends (·.shape = shape) bad
  compiledCall : ∀ t y, y.shape = shape → (f.compiledCall t y).Ends (·.shape = shape) bad
  compilingCall : ∀ t y, y.shape = shape → (f.compilingCall t y).Ends (·.shape = shape) bad

section

variable {bad : Error α → Prop} {t h : α} {y yp : State α}

/-- The stages of a scheme can be computed if the right-hand side answers, and the state that they lead to has the
right shape. -/
theorem Scheme.ends_increment {scheme : Scheme} {f : α → State α → Effect σ α (State α)}
    (unimplemented : scheme = .abstract → bad .noIncrement)
    (answers : ∀ t y, y.shape = shape → (f t y).Ends (·.shape = shape) bad)
    (state : y.shape = shape) (rate : yp.shape = shape) :
    (scheme.increment f t y h yp).Ends (·.shape = shape) bad := by
  have fits : ∀ ys : List (State α), (∀ z ∈ ys, z.shape = shape) →
      (liftM (requireFit ys) : Effect σ α Unit).Ends (fun _ => True) bad := by
    intro ys same
    have ok : requireFit ys = .ok () := requireFit_of_shape same
    refine Effect.ends_lift (fun _ _ => trivial) fun e failed => ?_
    rw [ok] at failed
    cases failed
  have moved : ∀ (c : α) (z : State α), z.shape = shape → (y + c * z).shape = shape :=
    fun c z same => Tensor.shape_add_of state same
  cases scheme with
  | euler => exact Effect.ends_bind (fits _ (by simp [state, rate])) fun _ _ => Effect.ends_pure (moved _ _ rate)
  | midpoint =>
    refine Effect.ends_bind (fits _ (by simp [state, rate])) fun _ _ => ?_
    refine Effect.ends_bind (answers _ _ (moved _ _ rate)) fun k2 second => ?_
    refine Effect.ends_bind (fits _ (by simp [state, second])) fun _ _ => ?_
    exact Effect.ends_pure (moved _ _ second)
  | rk4 =>
    refine Effect.ends_bind (fits _ (by simp [state, rate])) fun _ _ => ?_
    refine Effect.ends_bind (answers _ _ (moved _ _ rate)) fun k2 second => ?_
    refine Effect.ends_bind (fits _ (by simp [state, second])) fun _ _ => ?_
    refine Effect.ends_bind (answers _ _ (moved _ _ second)) fun k3 third => ?_
    refine Effect.ends_bind (fits _ (by simp [state, third])) fun _ _ => ?_
    refine Effect.ends_bind (answers _ _ (moved _ _ third)) fun k4 fourth => ?_
    refine Effect.ends_bind (fits _ (by simp [state, rate, second, third, fourth])) fun _ _ => ?_
    refine Effect.ends_pure (moved _ _ ?_)
    exact Tensor.shape_add_of (Tensor.shape_add_of (Tensor.shape_add_of rate second) third) fourth
  | abstract =>
    refine fun s => ⟨fun _ _ ran => ?_, fun e _ ran => ?_⟩
    · cases ran
    · cases ran
      exact unimplemented rfl

variable {stepper : Stepper} {f : Rate ω α}

theorem Stepper.ends_increment (unimplemented : stepper.scheme = .abstract → bad .noIncrement)
    (answers : f.Answers shape bad) (state : y.shape = shape) (rate : yp.shape = shape) :
    (stepper.increment f t y h yp).Ends (·.shape = shape) bad := by
  unfold Stepper.increment
  split
  · exact Scheme.ends_increment unimplemented answers.call state rate
  · refine Effect.ends_bind Effect.ends_get fun u _ => ?_
    split
    · exact Scheme.ends_increment unimplemented answers.compiledCall state rate
    · refine Effect.ends_bind (Scheme.ends_increment unimplemented answers.compilingCall state rate) ?_
      intro yNext fits
      exact Effect.ends_bind (Effect.ends_modify _) fun _ _ => Effect.ends_pure fits

/-- A step can be taken if its size allows one and the right-hand side answers, and its window is uniform. -/
theorem Stepper.ends_advance (unimplemented : stepper.scheme = .abstract → bad .noIncrement)
    (size : ∀ e, checkStepSize h = .error e → bad e) (answers : f.Answers shape bad) (state : y.shape = shape)
    {yp : Option (State α)} (rate : ∀ z ∈ yp, z.shape = shape) :
    (stepper.advance f t y h yp).Ends (fun step => (Window.ofStep step).Uniform shape) bad := by
  unfold Stepper.advance
  refine Effect.ends_bind (Effect.ends_lift (fun _ _ => trivial) size) fun h (_ : True) => ?_
  have rest : ∀ start : State α, start.shape = shape → (do
      let yNext ← stepper.increment f t y h start
      let ypNext ← f.call (t + h) yNext
      return (⟨t, y, t + h, yNext, start, ypNext⟩ : Step α) : Effect (Tally ω) α (Step α)).Ends
        (fun step => (Window.ofStep step).Uniform shape) bad := by
    intro start begun
    refine Effect.ends_bind (Stepper.ends_increment unimplemented answers state begun) fun yNext next => ?_
    refine Effect.ends_bind (answers.call _ _ next) fun ypNext last => ?_
    exact Effect.ends_pure ⟨state, next, begun, last, state, next⟩
  cases yp with
  | some start => exact Effect.ends_bind (Effect.ends_pure (rate start rfl)) rest
  | none => exact Effect.ends_bind (answers.call t y state) rest

end

end Trajectory
