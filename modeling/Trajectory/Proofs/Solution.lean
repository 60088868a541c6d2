import Mathlib.Tactic
import Trajectory.InitialValue
import Trajectory.Proofs.Delivery

/-!
Solving a problem in one call, in any kind of scalars.

What comes before the run of a history is either an error, with which it ends at once (`history_of_refused`), or an
engine and a sampler. If the run of that engine returns, the history is the table of its sampler (`history_of_run`).
-/

namespace Trajectory.InitialValue

open Effect

variable {ω α : Type} [Scalar α] [Spacing α] {p : InitialValue ω α} {times : Option (Tensor α)} {e e' : Engine ω α}
  {equation : Equation ω α} {t : α} {y : State α} {w w' : ω}

omit [Scalar α] [Spacing α] in
theorem runFrom_leave (ts : List α) (ns : List (Notice α)) (w : ω) :
    ∃ ns', (ts.forM fun t => (Noted.leave (.stopped t) : Noted ω α Unit)).runFrom (ns, w) = (.ok ⟨⟩, ns', w) := by
  induction ts generalizing ns with
  | nil => exact ⟨ns, rfl⟩
  | cons t rest ih =>
    obtain ⟨ns', left⟩ := ih (.stopped t :: ns)
    exact ⟨ns', left⟩

/-- A run that returns is carried out as it is, and notices are left. -/
theorem runFrom_runWith (ran : (Engine.integrate equation p.start p.y0 p.target).runFrom (e, w) = (.ok (t, y), e', w'))
    (ns : List (Notice α)) : ∃ ns', (p.runWith e equation).runFrom (ns, w) = (.ok (e', t, y), ns', w') := by
  obtain ⟨ns', left⟩ := runFrom_leave e'.journal.stops ns w'
  refine ⟨.reached e'.name t e'.accepted e'.evaluations :: ns', ?_⟩
  have stored : (set (ns, w') : Noted ω α PUnit).runFrom (ns, w) = (.ok ⟨⟩, ns, w') := rfl
  simp only [runWith, runFrom_bind, runFrom_get, ran, stored, left]
  rfl

/-- A history for times that are refused does nothing. -/
theorem history_of_refused {refused : Error α} (rejected : p.rowTimes times = .error refused) (verbose : Bool)
    (ns : List (Notice α)) (w : ω) : (p.history times verbose).runFrom (ns, w) = (.error refused, ns, w) := by
  simp only [history, runFrom_bind, runFrom_lift, rejected]

/-- A history whose run returns is the table of its sampler. -/
theorem history_of_run {rows : Tensor α} {sampler : Sampler α} (accepted : p.rowTimes times = .ok rows)
    (sampled : Sampler.ofTensor rows = .ok sampler) (system : p.source.toEquation p.y0 = .ok equation)
    (built : p.engine = .ok e) (ran : (Engine.integrate equation p.start p.y0 p.target).runFrom
      (e.addObserver (.sampler sampler), w) = (.ok (t, y), e', w'))
    {others : List (Observer ω α)} {o : Observer ω α} (observers : e'.observers = others ++ [o]) {verbose : Bool}
    (countable : verbose = true → ∃ steps, p.estimate = .ok steps) (ns : List (Notice α)) :
    ∃ ns', (p.history times verbose).runFrom (ns, w) = (o.table, ns', w') := by
  have noticed : ∀ n (ns : List (Notice α)),
      (Noted.leave n : Noted ω α Unit).runFrom (ns, w) = (.ok (), n :: ns, w) := fun n ns => rfl
  have last : e'.observers.getLast? = some o := by simp [observers]
  cases verbose with
  | false =>
    obtain ⟨ns', carried⟩ := runFrom_runWith ran ns
    refine ⟨ns', ?_⟩
    simp only [history, runFrom_bind, runFrom_lift, accepted, system, built, sampled, carried, last, Bool.false_eq_true,
      if_false]
  | true =>
    obtain ⟨steps, estimated⟩ := countable rfl
    obtain ⟨ns', carried⟩ := runFrom_runWith ran (.evaluating sampler.requested.length ::
      .span p.start p.target p.stepSize steps :: .solving (e.addObserver (.sampler sampler)).name :: ns)
    refine ⟨ns', ?_⟩
    simp only [history, runFrom_bind, runFrom_lift, accepted, system, built, sampled, estimated, noticed, if_true,
      carried, last]

omit [Spacing α] in
/-- The rows along the last axis of an array with one axis are all of its entries. -/
theorem unordered_line {ts : Tensor α} {n : Nat} (line : ts.shape = [n]) (forward : Bool) :
    unordered forward ts = .ok (disordered forward ts.entries) := by
  have length : ts.entries.length = n := by
    rw [ts.length_entries, line]
    simp
  have whole : ts.entries.take n = ts.entries := List.take_of_length_le length.le
  rw [unordered, line]
  simp [lastRows, whole]

end Trajectory.InitialValue
