import Mathlib.Tactic
import Trajectory.Proofs.Passes
import Trajectory.Proofs.Shapes

/-!
The shapes of the pieces of a run, in any kind of scalars.

If the right-hand side keeps the shape of a state (`Rate.Keeps`), every step of a run has one shape, and so have the
windows to which it is narrowed. The states that handlers supply are checked before they are used. So what is known
where a run stands between two passes (`Phase.Uniform`) holds again after a pass (`Course.uniform_pass`), and all pieces
of a run answer with states of the shape of the initial one (`Engine.integrate_uniform`).
-/

namespace Trajectory

open Effect

variable {ω α : Type} {shape : Shape}

/-- A right-hand side that answers to states of a shape with derivatives of that shape, if it answers. -/
structure Rate.Keeps (shape : Shape) (f : Rate ω α) : Prop where
  eval : ∀ t y, y.shape = shape → (f.eval t y).Ends (·.shape = shape) fun _ => True
  compiled : ∀ t y yp, y.shape = shape → f.compiled t y = .ok yp → yp.shape = shape

theorem Rate.Keeps.answers {f : Rate ω α} (keeps : f.Keeps shape) : f.Answers shape fun _ => True := by
  have compiledCall : ∀ t y, y.shape = shape →
      (f.compiledCall t y : Effect (Tally ω) α _).Ends (·.shape = shape) fun _ => True :=
    fun t y same => ends_lift (fun yp => keeps.compiled t y yp same) fun _ _ => trivial
  refine ⟨fun t y same => ?_, compiledCall, fun t y same => ?_⟩
  · exact ends_bind (ends_modify _) fun _ _ => ends_within (keeps.eval t y same)
  · exact ends_bind (ends_modify _) fun _ _ => ends_bind (ends_anyhow _) fun _ _ => compiledCall t y same

/-- Between two passes the states and derivatives at hand have one shape. -/
def Phase.Uniform (shape : Shape) : Phase α → Prop
  | .stepping _ y yp => y.shape = shape ∧ ∀ z ∈ yp, z.shape = shape
  | .scanning leg window => window.Uniform shape ∧ leg.step.ypNext.shape = shape

/-- A run that goes on does so with states of one shape. -/
def Progress.Uniform (shape : Shape) : Progress α → Prop
  | .finished _ _ => True
  | .onward phase => phase.Uniform shape

/-- A handover of a piece of one shape, after which the run goes on with states of that shape. -/
structure Handover.Uniform (shape : Shape) (h : Handover ω α) : Prop where
  piece : h.piece.Uniform shape
  rest : h.rest.Ends (Progress.Uniform shape) fun _ => True

variable [Scalar α] {course : Course ω α} {leg : Leg α} {window v : Window α} {phase : Phase α} {s s' : Session ω α}
  {t t0 : α} {y y0 : State α}

theorem Window.Uniform.restrict [Spacing α] {start stop : α} (uniform : window.Uniform shape)
    (narrowed : window.restrict start stop = .ok v) : v.Uniform shape := by
  obtain ⟨step, _, _, yStart, yStop⟩ := Window.restrict_ok narrowed
  refine ⟨?_, ?_, ?_, ?_, uniform.stateAt_shape yStart, uniform.stateAt_shape yStop⟩
  · exact step ▸ uniform.y
  · exact step ▸ uniform.yNext
  · exact step ▸ uniform.yp
  · exact step ▸ uniform.ypNext

namespace Course

theorem uniform_restart (state : y.shape = shape) (atEnd : Bool) :
    (restart t y atEnd : Effect (Session ω α) α _).Ends (Progress.Uniform shape) fun _ => True := by
  refine ends_bind (ends_anyhow _) fun _ _ => ?_
  cases atEnd with
  | true => exact ends_pure trivial
  | false => exact ends_pure ⟨state, fun _ absent => by cases absent⟩

/-- All states and derivatives of the next step have the shape of the state that it starts from. -/
theorem uniform_nextLeg (keeps : course.equation.Keeps shape) (state : y.shape = shape) {yp : Option (State α)}
    (rate : ∀ z ∈ yp, z.shape = shape) :
    (course.nextLeg t y yp).Ends (fun leg => (Window.ofStep leg.step).Uniform shape) fun _ => True := by
  refine ends_bind (ends_within (Stepper.ends_advance (fun _ => trivial) (fun _ _ => trivial) keeps.answers state
    rate)) fun step uniform => ?_
  refine ends_pure ?_
  dsimp only
  split
  · exact ⟨uniform.y, uniform.yNext, uniform.yp, uniform.ypNext, uniform.yStart, uniform.yStop⟩
  · exact uniform

variable [Spacing α]

omit [Spacing α] in
theorem uniform_settling (uniform : window.Uniform shape) (rate : leg.step.ypNext.shape = shape) :
    (settling leg window : Handover ω α).Uniform shape := by
  refine ⟨uniform, ends_bind (ends_anyhow _) fun _ _ => ?_⟩
  cases leg.last with
  | true => exact ends_pure trivial
  | false =>
    refine ends_pure ⟨uniform.yStop, fun z same => ?_⟩
    cases same
    exact rate

/-- A run goes on after a group of events with states of one shape: those that a handler supplies are checked. -/
theorem uniform_resume (accepted : course.equation.accepts y0 = true) (uniform : window.Uniform y0.shape)
    (rate : leg.step.ypNext.shape = y0.shape) (state : y.shape = y0.shape) (atEnd : Bool) (verdict : Verdict ω α) :
    (course.resume leg window t y atEnd verdict).Ends (Progress.Uniform y0.shape) fun _ => True := by
  cases verdict with
  | stop => exact ends_bind (ends_modify _) fun _ _ => ends_pure trivial
  | replace index handler =>
    refine ends_bind (ends_anyhow _) fun supplied _ => ?_
    have checked : (liftM (course.equation.requireSize .resetState supplied) : Effect (Session ω α) α Unit).Ends
        (fun _ => supplied.shape = y0.shape) fun _ => True :=
      ends_lift (fun _ fits => (Equation.accepts_iff accepted).mp (Equation.requireSize_ok.mp fits)) fun _ _ => trivial
    exact ends_bind checked fun _ fits => ends_bind (ends_modify _) fun _ _ => uniform_restart fits atEnd
  | restart => exact uniform_restart state atEnd
  | carryOn =>
    refine ends_bind (ends_anyhow _) fun _ _ => ?_
    split
    · cases leg.last with
      | true => exact ends_pure trivial
      | false =>
        refine ends_pure ⟨state, fun z same => ?_⟩
        cases same
        exact rate
    · refine ends_bind (ends_lift (fun left => uniform.restrict) fun _ _ => trivial) fun left narrowed => ?_
      exact ends_pure ⟨narrowed, rate⟩

theorem uniform_survey (accepted : course.equation.accepts y0 = true) (uniform : window.Uniform y0.shape)
    (rate : leg.step.ypNext.shape = y0.shape) :
    (course.survey leg window).Ends (Handover.Uniform y0.shape) fun _ => True := by
  refine ends_bind (ends_anyhow _) fun group _ => ?_
  cases group with
  | nil => exact ends_pure (uniform_settling uniform rate)
  | cons first rest =>
    refine ends_bind (ends_modify _) fun _ _ => ?_
    have truncated : (liftM (window.truncate first.t) : Effect (Session ω α) α (Window α)).Ends
        (Window.Uniform y0.shape) fun _ => True :=
      ends_lift (fun piece => uniform.restrict) fun _ _ => trivial
    refine ends_bind truncated fun piece cut => ends_bind (ends_anyhow _) fun verdict _ => ?_
    exact ends_pure ⟨cut, uniform_resume accepted uniform rate cut.yStop _ verdict⟩

theorem uniform_approach (accepted : course.equation.accepts y0 = true) (keeps : course.equation.Keeps y0.shape)
    (uniform : phase.Uniform y0.shape) : (course.approach phase).Ends (Handover.Uniform y0.shape) fun _ => True := by
  cases phase with
  | stepping t y yp =>
    exact ends_bind (uniform_nextLeg keeps uniform.1 uniform.2) fun leg whole =>
      uniform_survey accepted whole whole.ypNext
  | scanning leg window => exact uniform_survey accepted uniform.1 uniform.2

/-- A pass hands over a piece of the shape of the states at hand, and goes on with states of that shape. -/
theorem uniform_pass (accepted : course.equation.accepts y0 = true) (keeps : course.equation.Keeps y0.shape)
    (whole : phase.Whole) (uniform : phase.Uniform y0.shape) (before : ∀ p ∈ s.journal.pieces, p.1.Uniform y0.shape)
    {progress : Progress α} (ran : (course.pass phase).runFrom s = (.ok progress, s')) :
    progress.Uniform y0.shape ∧ ∀ p ∈ s'.journal.pieces, p.1.Uniform y0.shape := by
  rw [pass_eq] at ran
  obtain ⟨h, s₁, approached, handed⟩ := runFrom_bind_ok.mp ran
  have kept := (uniform_approach accepted keeps uniform s).1 h s₁ approached
  have idle := course.idle_approach phase _ _ _ approached
  rw [runFrom_handOver] at handed
  split at handed
  · cases handed
  · obtain ⟨after, _, _⟩ := (approach_ok whole approached).perform_ok handed
    obtain ⟨_, _, _, rested⟩ := runFrom_bind_ok.mp handed
    refine ⟨(kept.rest _).1 progress s' rested, fun p mem => ?_⟩
    rw [(idle.after.trans after).journal] at mem
    rcases List.mem_append.mp mem with earlier | last
    · exact before p earlier
    · rw [List.mem_singleton.mp last]
      exact kept.piece

/-- The states at hand between two passes of a run, and the pieces handed over before, have one shape. -/
theorem Arrives.uniform {s₀ : Session ω α} (fresh : s₀.accepted = 0) (empty : s₀.journal.pieces = [])
    (accepted : course.equation.accepts y0 = true) (keeps : course.equation.Keeps y0.shape)
    (arrives : course.Arrives t0 y0 s₀ phase s) :
    phase.Uniform y0.shape ∧ ∀ p ∈ s.journal.pieces, p.1.Uniform y0.shape := by
  induction arrives with
  | @first yp s begun =>
    have derivative : yp.shape = y0.shape := by
      simp only [Course.begin, runFrom_bind_ok] at begun
      obtain ⟨_, _, _, _, _, sized, _, _, _, _, _, _, same⟩ := begun
      cases same
      exact (Equation.accepts_iff accepted).mp (Equation.requireSize_ok.mp (runFrom_lift_iff.mp sized).1)
    refine ⟨⟨rfl, fun z same => ?_⟩, fun p mem => ?_⟩
    · cases same
      exact derivative
    · rw [(begin_ok begun).2.1, empty] at mem
      exact absurd mem List.not_mem_nil
  | next earlier passed ih =>
    exact uniform_pass accepted keeps (earlier.ahead fresh).1 ih.1 ih.2 passed

end Course

/-- If the right-hand side keeps the shape of the initial state, all states and derivatives of the pieces of a run have
that shape. -/
theorem Engine.integrate_uniform [Spacing α] {e e' : Engine ω α} {equation : Equation ω α} {target : α}
    {r : α × State α} {w w' : ω} (keeps : equation.Keeps y0.shape)
    (ran : (integrate equation t0 y0 target).runFrom (e, w) = (.ok r, e', w')) :
    ∀ p ∈ e'.journal.pieces, p.1.Uniform y0.shape := by
  obtain ⟨course, s', prepared, finished, rfl, _⟩ := integrate_ok ran
  rw [← equation_of_prepare prepared] at keeps
  have accepted : course.equation.accepts y0 = true := equation_of_prepare prepared ▸ accepts_of_prepare prepared
  cases (Course.run_ends rfl).mp finished with
  | finished arrives passed =>
    obtain ⟨uniform, before⟩ := arrives.uniform rfl rfl accepted keeps
    exact (Course.uniform_pass accepted keeps (arrives.ahead rfl).1 uniform before passed).2

end Trajectory
