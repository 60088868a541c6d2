import Mathlib.Tactic
import Trajectory.Proofs.Output
import Trajectory.Proofs.Shapes

/-!
States of one shape.

If the right-hand side answers to every state of the right size with a derivative of that size, all
states and derivatives of a run have one shape. Then no formula fails: the stages of a step can be
computed (`Course.nextLeg_ends`), and the dense output answers at every time of a window
(`Leg.Shows.stateAt_ok`), whose bounds can be moved to any two of them (`Leg.Shows.restrict_ok`).
-/

namespace Trajectory

variable {ω : Type} {shape : Shape}

/-- An equation that answers to every state that fits it with a derivative that fits it. -/
structure Equation.Total (equation : Equation ω Rat) : Prop where
  eval : ∀ t y, equation.accepts y = true → (equation.eval t y).Yields fun yp => equation.accepts yp = true
  onCompile : equation.onCompile.Yields fun _ => True
  compiled : ∀ t y, equation.accepts y = true → ∃ yp, equation.compiled t y = .ok yp ∧ equation.accepts yp = true

/-- A step whose states and derivatives have one shape. -/
structure Step.Sized (shape : Shape) (s : Step Rat) : Prop where
  y : s.y.shape = shape
  yNext : s.yNext.shape = shape
  yp : s.yp.shape = shape
  ypNext : s.ypNext.shape = shape

namespace Step.Sized

variable {s : Step Rat} {t : Rat} {y : State Rat}

theorem uniform (sized : s.Sized shape) : (Window.ofStep s).Uniform shape :=
  ⟨sized.y, sized.yNext, sized.yp, sized.ypNext, sized.y, sized.yNext⟩

theorem requireCubic_ok (sized : s.Sized shape) : s.requireCubic = .ok () := by
  have states : jointShape [s.y, s.yNext] = .ok shape :=
    jointShape_of_shape (by simp [sized.y, sized.yNext])
  have rates : jointShape [s.yp, s.ypNext] = .ok shape :=
    jointShape_of_shape (by simp [sized.yp, sized.ypNext])
  rw [requireCubic, except_bind_ok]
  refine ⟨shape, states, ?_⟩
  rw [except_bind_ok]
  refine ⟨shape, rates, ?_⟩
  rw [Shape.joined_self]
  rfl

variable [Spacing Rat]

/-- What the dense output of a step answers has the shape of its states. -/
theorem stateAt_shape (sized : s.Sized shape) (answered : (Window.ofStep s).stateAt t = .ok y) : y.shape = shape :=
  sized.uniform.stateAt_shape answered

end Step.Sized

section

variable [Spacing Rat] {forward : Bool} {leg : Leg Rat} {window : Window Rat} {a b t : Rat} {y : State Rat}

/-- A window that shows its step answers at all of its times. -/
theorem Leg.Shows.stateAt_ok (gaps : ∀ x : Rat, 0 ≤ Spacing.ulp x) (shown : leg.Shows forward window)
    (sized : leg.step.Sized shape) (begun : NotAfter forward window.start t)
    (reached : NotAfter forward t window.stop) :
    ∃ y, window.stateAt t = .ok y ∧ y.shape = shape := by
  have long : leg.step.h ≠ 0 := sub_ne_zero.mpr shown.part.ahead_step.ne.symm
  have answers : ∃ y, window.stateAt t = .ok y := by
    rw [← shown.part.step] at long sized
    exact Window.stateAt_ok gaps long sized.requireCubic_ok begun reached
  obtain ⟨y, answered⟩ := answers
  exact ⟨y, answered, sized.stateAt_shape (shown.stateAt gaps begun reached answered)⟩

/-- A window that shows its step can be narrowed to any two of its times in the order of the run. -/
theorem Leg.Shows.restrict_ok (gaps : ∀ x : Rat, 0 ≤ Spacing.ulp x) (shown : leg.Shows forward window)
    (sized : leg.step.Sized shape) (begun : NotAfter forward window.start a) (order : NotAfter forward a b)
    (reached : NotAfter forward b window.stop) : ∃ v, window.restrict a b = .ok v := by
  obtain ⟨ya, atA, _⟩ := shown.stateAt_ok gaps sized begun (order.trans reached)
  obtain ⟨yb, atB, _⟩ := shown.stateAt_ok gaps sized (begun.trans order) reached
  have along : ¬ (b - a) * (window.step.tNext - window.step.t) < 0.0 := by
    have whole := shown.part.ahead_step.notAfter
    rw [← shown.part.step] at whole
    have product : 0 ≤ (b - a) * (window.step.tNext - window.step.t) := by
      cases forward
      · exact mul_nonneg_of_nonpos_of_nonpos (sub_nonpos.mpr order) (sub_nonpos.mpr whole)
      · exact mul_nonneg (sub_nonneg.mpr order) (sub_nonneg.mpr whole)
    norm_num
    exact product
  refine ⟨{ window with start := a, stop := b, yStart := ya, yStop := yb }, ?_⟩
  rw [Window.restrict, except_bind_ok]
  refine ⟨(), Window.check_inside gaps begun (order.trans reached), ?_⟩
  rw [except_bind_ok]
  refine ⟨(), Window.check_inside gaps (begun.trans order) reached, ?_⟩
  rw [if_neg along, except_bind_ok]
  refine ⟨ya, atA, ?_⟩
  rw [except_bind_ok]
  exact ⟨yb, atB, rfl⟩

end

section

variable {course : Course ω Rat} {y₀ y : State Rat} {t h : Rat}

/-- A right-hand side that answers to every state that fits it does so however it is called. -/
theorem Equation.Total.answers {equation : Equation ω Rat} (total : equation.Total)
    (accepted : equation.accepts y₀ = true) : equation.Answers y₀.shape fun _ => False := by
  have compiledCall : ∀ t y, y.shape = y₀.shape →
      (equation.compiledCall t y : Effect (Tally ω) Rat _).Ends (·.shape = y₀.shape) fun _ => False := by
    intro t y same
    obtain ⟨yp, computed, fits⟩ := total.compiled t y ((Equation.accepts_iff accepted).mpr same)
    refine Effect.ends_lift (fun z value => ?_) fun e failed => ?_
    · rw [computed] at value
      cases value
      exact (Equation.accepts_iff accepted).mp fits
    · rw [computed] at failed
      cases failed
  refine ⟨fun t y same => ?_, compiledCall, fun t y same => ?_⟩
  · refine Effect.ends_bind (Effect.ends_modify _) fun _ _ => ?_
    have yields := total.eval t y ((Equation.accepts_iff accepted).mpr same)
    exact Effect.ends_within (yields.ends.mono (fun yp fits => (Equation.accepts_iff accepted).mp fits) fun _ => id)
  · refine Effect.ends_bind (Effect.ends_modify _) fun _ _ => ?_
    exact Effect.ends_bind (Effect.ends_within total.onCompile.ends) fun _ _ => compiledCall t y same

/-- A step of a size other than zero can be taken, and its states and derivatives have one shape. -/
theorem Stepper.advance_ends {equation : Equation ω Rat} {stepper : Stepper} (total : equation.Total)
    (implemented : stepper.scheme ≠ .abstract) (accepted : equation.accepts y₀ = true) (long : h ≠ 0)
    (state : y.shape = y₀.shape) {yp : Option (State Rat)} (rate : ∀ z ∈ yp, z.shape = y₀.shape) :
    (stepper.advance equation.toRate t y h yp).Ends (Step.Sized y₀.shape) fun _ => False := by
  have size : ∀ e, checkStepSize h = .error e → False := by
    intro e failed
    simp [checkStepSize, long] at failed
  refine (Stepper.ends_advance implemented size (total.answers accepted) state rate).mono ?_
    fun _ => id
  exact fun step uniform => ⟨uniform.y, uniform.yNext, uniform.yp, uniform.ypNext⟩

/-- The next step of a run before its target can be taken. -/
theorem Course.nextLeg_ends (total : course.equation.Total) (implemented : course.stepper.scheme ≠ .abstract)
    (accepted : course.equation.accepts y₀ = true) (long : course.h ≠ 0) (ahead : t ≠ course.target)
    (state : y.shape = y₀.shape) {yp : Option (State Rat)} (rate : ∀ z ∈ yp, z.shape = y₀.shape) :
    (course.nextLeg t y yp).Ends (fun leg => leg.step.Sized y₀.shape) fun _ => False := by
  have size : (if course.isLast t then course.target - t else course.h) ≠ 0 := by
    split
    · exact sub_ne_zero.mpr ahead.symm
    · exact long
  refine Effect.ends_bind (Effect.ends_within (Stepper.advance_ends total implemented accepted size state rate)) ?_
  intro step sized
  refine Effect.ends_pure ?_
  dsimp only
  split
  · exact ⟨sized.y, sized.yNext, sized.yp, sized.ypNext⟩
  · exact sized

end

end Trajectory
