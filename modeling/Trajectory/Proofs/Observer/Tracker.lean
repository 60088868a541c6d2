import Mathlib.Tactic
import Trajectory.Proofs.Part
import Trajectory.Reference.Tracker

/-!
How a tracker fares with a step of which it hears part by part.

A tracker fails where a state cannot be compared with the solution, which is a matter of shapes
alone (`deviation_shape`). So one that could measure its error on the last part of a step can do so
on the step as a whole (`settle`).
-/

namespace Trajectory

variable {ω : Type} [Spacing Rat] {forward : Bool} {step : Step Rat} {a : Rat} {piece : Window Rat}

/-- A problem whose solution is known at all times, always with the same axes. -/
structure Problem.Known (p : Problem ω Rat) : Prop where
  everywhere : ∀ t, p.solutionDomain t = .ok ()
  shape : ∀ t t', (p.solution t).shape = (p.solution t').shape

section

omit [Spacing Rat]

variable {x x' y y' : State Rat}

theorem Tensor.shape_combine_congr (f g : Rat → Rat → Rat) (left : x'.shape = x.shape) (right : y'.shape = y.shape) :
    (combine f x' y').shape = (combine g x y).shape := by
  by_cases same : x.shape = y.shape
  · have same' : x'.shape = y'.shape := by rw [left, right, same]
    rw [shape_combine f same', shape_combine g same, left]
  · have other : x'.shape ≠ y'.shape := by rwa [left, right]
    rw [combine, dif_neg other, combine, dif_neg same, shape_tabulate, shape_tabulate, left, right]

/-- In a step in which one time has a position every time has one. -/
theorem Step.position_some {s : Step Rat} {t θ : Rat} (position : s.position t = .ok θ) (t' : Rat) :
    ∃ η, s.position t' = .ok η := by
  rw [Step.position, quotient] at position
  split at position
  · cases position
  · rename_i nonzero
    exact ⟨(t' - s.t) / s.h, by rw [Step.position, quotient, if_neg nonzero]⟩

/-- The cubic of a step has the same axes everywhere. -/
theorem Step.shape_cubic (s : Step Rat) (θ η : Rat) : (s.cubic θ).shape = (s.cubic η).shape := by
  refine Tensor.shape_combine_congr _ _ (Tensor.shape_combine_congr _ _ rfl rfl) ?_
  exact Tensor.shape_combine_congr (x := _) (y := _) _ _ rfl rfl

theorem Tensor.maxNorm_congr (same : y'.shape = y.shape) {norm : Rat} (attained : y.maxNorm? = some norm) :
    ∃ norm', y'.maxNorm? = some norm' := by
  have length : y'.entries.length = y.entries.length := by rw [y'.length_entries, y.length_entries, same]
  cases entries : y.entries with
  | nil => simp [maxNorm?, entries] at attained
  | cons first rest =>
    cases entries' : y'.entries with
    | nil => simp [entries, entries'] at length
    | cons first' rest' =>
      exact ⟨(rest'.map Scalar.abs).foldl maxNorm?.worse (Scalar.abs first'),
        by simp only [maxNorm?, entries', List.map_cons]⟩

theorem requireFit_congr (left : x'.shape = x.shape) (right : y'.shape = y.shape) :
    requireFit [x', y'] = requireFit [x, y] := by
  simp only [requireFit, jointShape, List.foldlM_cons, List.foldlM_nil, left, right]

end

namespace Tracker

variable {k k' k₀ : Tracker ω Rat} {y y' : State Rat}

omit [Spacing Rat] in
/-- A state can be compared with a solution if one of the same shape can. -/
theorem deviation_shape (known : k.problem.Known) (problem : k₀.problem = k.problem) (same : y'.shape = y.shape)
    {t error : Rat} (measured : k.deviation t y = .ok error) (t' : Rat) :
    ∃ error', k₀.deviation t' y' = .ok error' := by
  have solved : ∀ t, k.problem.solutionAt t = .ok (k.problem.solution t) := by
    intro t
    rw [Problem.solutionAt, known.everywhere t]
    rfl
  rw [deviation, solved, except_bind_ok] at measured
  obtain ⟨_, same', measured⟩ := measured
  cases same'
  obtain ⟨_, fits, measured⟩ := except_bind_ok.mp measured
  have shape := known.shape t' t
  have fits' : requireFit [y', k.problem.solution t'] = .ok () := by
    rw [requireFit_congr same shape]
    exact fits
  cases norm : (y - k.problem.solution t).maxNorm? with
  | none =>
    rw [norm] at measured
    cases measured
  | some norm =>
    have difference : (y' - k.problem.solution t').shape = (y - k.problem.solution t).shape :=
      Tensor.shape_combine_congr _ _ same shape
    obtain ⟨norm', attained'⟩ := Tensor.maxNorm_congr difference norm
    rw [deviation, problem, solved]
    exact ⟨norm', except_bind_ok.mpr ⟨_, rfl, except_bind_ok.mpr ⟨(), fits', by rw [attained']; rfl⟩⟩⟩

theorem accept_ok {last : Bool} (heard : (Tracker.accept piece last).runFrom k = (.ok (), k')) :
    (∃ error, k.midpointError piece = .ok error) ∧
      (last = true → ∃ error, k.deviation piece.stop piece.yStop = .ok error) ∧ k'.problem = k.problem := by
  rw [Tracker.accept, Effect.runFrom_bind, Effect.runFrom_get] at heard
  obtain ⟨error, _, lifted, heard⟩ := Effect.runFrom_bind_ok.mp heard
  obtain ⟨measured, rfl⟩ := Effect.runFrom_lift_iff.mp lifted
  rw [Effect.runFrom_bind, Effect.runFrom_modify] at heard
  cases last with
  | false =>
    cases heard
    exact ⟨⟨error, measured⟩, (fun impossible => by cases impossible), rfl⟩
  | true =>
    obtain ⟨final, _, lifted', heard⟩ := Effect.runFrom_bind_ok.mp heard
    obtain ⟨measured', rfl⟩ := Effect.runFrom_lift_iff.mp lifted'
    cases heard
    exact ⟨⟨error, measured⟩, fun _ => ⟨final, measured'⟩, rfl⟩

theorem accept_of_measured {last : Bool} {error : Rat} (measured : k.midpointError piece = .ok error)
    (final : last = true → ∃ error, k.deviation piece.stop piece.yStop = .ok error) :
    ∃ k', (Tracker.accept piece last).runFrom k = (.ok (), k') ∧ k'.problem = k.problem := by
  rw [Tracker.accept, Effect.runFrom_bind, Effect.runFrom_get]
  dsimp only
  rw [Effect.runFrom_bind, Effect.runFrom_lift, measured]
  dsimp only
  rw [Effect.runFrom_bind, Effect.runFrom_modify]
  dsimp only
  cases last with
  | false => exact ⟨_, rfl, rfl⟩
  | true =>
    obtain ⟨error', measured'⟩ := final rfl
    rw [if_pos rfl, Effect.runFrom_bind, Effect.runFrom_lift, measured']
    exact ⟨_, rfl, rfl⟩

omit [Spacing Rat] in
theorem between_midpoint {b : Rat} (ahead : Precedes forward a b) :
    Precedes forward a (0.5 * (a + b)) ∧ Precedes forward (0.5 * (a + b)) b := by
  rw [precedes_iff_sign] at ahead
  rw [precedes_iff_sign, precedes_iff_sign]
  constructor
  · linarith
  · linarith

/-- A tracker that could measure its error on the last part of a step can do so on the step. -/
theorem settle (gaps : ∀ x : Rat, 0 ≤ Spacing.ulp x) (part : piece.Part forward step) (stop : piece.stop = step.tNext)
    (ahead : Precedes forward step.t step.tNext) (known : k.problem.Known) (problem : k₀.problem = k.problem)
    {last : Bool} (heard : (Tracker.accept piece last).runFrom k = (.ok (), k')) :
    ∃ k₀', (Tracker.accept (.ofStep step) last).runFrom k₀ = (.ok (), k₀') ∧ k₀'.problem = k'.problem := by
  obtain ⟨⟨error, measured⟩, final, kept⟩ := accept_ok heard
  rw [midpointError, except_bind_ok] at measured
  obtain ⟨y, answered, deviates⟩ := measured
  obtain ⟨behind, before⟩ := between_midpoint part.ahead
  obtain ⟨_, θ, position, fits, cubic⟩ := (Window.stateAt_between behind.ne.symm before.ne).mp answered
  rw [part.step] at position fits cubic
  obtain ⟨behind', before'⟩ := between_midpoint ahead
  obtain ⟨η, position'⟩ := Step.position_some position (0.5 * (step.t + step.tNext))
  have inside : (Window.ofStep step).check (0.5 * (step.t + step.tNext)) = .ok () :=
    Window.check_inside gaps (w := .ofStep step) behind'.notAfter before'.notAfter
  have answered' : (Window.ofStep step).stateAt (0.5 * (step.t + step.tNext)) = .ok (step.cubic η) :=
    (Window.stateAt_between (w := .ofStep step) behind'.ne.symm before'.ne).mpr ⟨inside, η, position', fits, rfl⟩
  have shape : (step.cubic η).shape = y.shape := cubic ▸ step.shape_cubic η θ
  obtain ⟨error', deviates'⟩ := deviation_shape known problem shape deviates (0.5 * (step.t + step.tNext))
  have measured' : k₀.midpointError (.ofStep step) = .ok error' := by
    rw [midpointError, except_bind_ok]
    exact ⟨_, answered', deviates'⟩
  obtain ⟨k₀', accepted, kept'⟩ := accept_of_measured measured' fun ends : last = true => by
    obtain ⟨error, deviates⟩ := final ends
    rw [stop, part.yStop_eq ahead stop] at deviates
    exact deviation_shape known problem rfl deviates step.tNext
  exact ⟨k₀', accepted, (kept'.trans problem).trans kept.symm⟩

end Tracker

end Trajectory
