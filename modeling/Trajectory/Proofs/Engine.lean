import Mathlib.Tactic
import Trajectory.Proofs.Follows
import Trajectory.Proofs.Route

/-!
From an engine to the path of a run.

An engine is usable if it has a step size and valid settings, which is what its construction checks
(`usable_create`, `usable_addHandler`). A run of a usable engine is refused and leaves the engine as
it is, or its account is that of a path of moves on a directed course (`integrate_run`, `run_path`);
if it returns, the path leads to the end (`integrate_path`).
-/

namespace Trajectory

namespace Engine

variable {ω : Type}

/-- An engine that has a step size other than zero and valid settings for every handler. -/
structure Usable (e : Engine ω Rat) : Prop where
  size : e.stepSize ≠ 0
  valid : ∀ watch ∈ e.watches, watch.2.valid = true

theorem usable_create {stepper : Stepper} {size : Rat} {budget : Int} {e : Engine ω Rat}
    (created : create stepper size budget = .ok e) : e.Usable := by
  rw [create, except_bind_ok] at created
  obtain ⟨h, checked, created⟩ := created
  simp only [checkStepSize, Scalar.isZero_rat, Scalar.isFinite_rat, Bool.not_true, Bool.or_false,
    decide_eq_true_eq] at checked
  split at checked
  · cases checked
  · rename_i nonzero
    cases checked
    split at created
    · cases created
    · cases created
      exact ⟨nonzero, fun _ mem => absurd mem List.not_mem_nil⟩

theorem Usable.watch {e : Engine ω Rat} (usable : e.Usable) (handler : Handler ω Rat) {settings : Settings Rat}
    (valid : settings.valid = true) : (e.watch handler settings).Usable := by
  refine ⟨usable.size, fun watch mem => ?_⟩
  rcases List.mem_append.mp mem with earlier | new
  · exact usable.valid watch earlier
  · rw [List.mem_singleton.mp new]
    exact valid

theorem valid_ofOptions {o : SettingsOptions Rat} {settings : Settings Rat}
    (described : Settings.ofOptions o = .ok settings) : settings.valid = true := by
  have zero : (0.0 : Rat) = 0 := by norm_num
  rw [Settings.ofOptions] at described
  rw [Settings.valid_iff]
  cases longest : o.maxCheckInterval <;> cases near : o.proximity <;>
    simp only [longest, near, except_guard_ok, Scalar.isFinite_rat, Bool.and_true, Bool.not_eq_true',
      decide_eq_false_iff_not, not_le, not_lt, zero] at described
  case none.none =>
    obtain ⟨positive, budget, same⟩ := described
    cases same
    exact ⟨by simp, positive, Int.le_toNat (by omega) |>.mpr budget, by simp⟩
  case none.some =>
    obtain ⟨positive, budget, window, same⟩ := described
    cases same
    exact ⟨by simp, positive, Int.le_toNat (by omega) |>.mpr budget, by simpa using window⟩
  case some.none =>
    obtain ⟨interval, positive, budget, same⟩ := described
    cases same
    exact ⟨by simpa using interval, positive, Int.le_toNat (by omega) |>.mpr budget, by simp⟩
  case some.some =>
    obtain ⟨interval, positive, budget, window, same⟩ := described
    cases same
    exact ⟨by simpa using interval, positive, Int.le_toNat (by omega) |>.mpr budget, by simpa using window⟩

/-- A handler is registered with the settings given, or with those that its options describe, but not with both. -/
theorem addHandler_ok {α : Type} [Scalar α] {e e' : Engine ω α} {handler : Handler ω α} {given : Option (Settings α)}
    {options : SettingsOptions α} (added : e.addHandler handler given options = .ok e') :
    ∃ settings, e' = e.watch handler settings ∧
      (given = some settings ∨ given = none ∧ Settings.ofOptions options = .ok settings) := by
  cases given with
  | some settings =>
    rw [addHandler] at added
    split at added
    · cases added
      exact ⟨settings, rfl, Or.inl rfl⟩
    · cases added
  | none =>
    rw [addHandler, except_bind_ok] at added
    obtain ⟨settings, described, added⟩ := added
    cases added
    exact ⟨settings, rfl, Or.inr ⟨rfl, described⟩⟩

/-- Registering a handler with valid settings, or with options, keeps an engine usable. -/
theorem usable_addHandler {e e' : Engine ω Rat} (usable : e.Usable) {handler : Handler ω Rat}
    {settings : Option (Settings Rat)} {options : SettingsOptions Rat}
    (valid : ∀ s ∈ settings, s.valid = true) (added : e.addHandler handler settings options = .ok e') :
    e'.Usable := by
  obtain ⟨chosen, rfl, given | ⟨_, described⟩⟩ := addHandler_ok added
  · exact usable.watch handler (valid chosen given)
  · exact usable.watch handler (valid_ofOptions described)

theorem Usable.addObserver {e : Engine ω Rat} (usable : e.Usable) (o : Observer ω Rat) : (e.addObserver o).Usable :=
  ⟨usable.size, usable.valid⟩

variable {e : Engine ω Rat} {equation : Equation ω Rat} {t0 target : Rat} {y0 : State Rat} {course : Course ω Rat}

/-- Times that are far enough from each other for a run are different. -/
theorem ne_of_apart {s t : Rat}
    (apart : ¬ Scalar.abs (t - s) ≤ 1e-12 * Scalar.larger (Scalar.abs s) (Scalar.abs t)) : s ≠ t := by
  rintro rfl
  rw [sub_self, Scalar.abs_rat, abs_zero, Scalar.larger_rat] at apart
  exact apart (mul_nonneg (by norm_num) (le_max_of_le_left (Scalar.abs_rat s ▸ abs_nonneg s)))

theorem signedStep_ok {forward : Bool} {h : Rat} (signed : e.signedStep forward = .ok h) :
    h = runSign forward * |e.stepSize| := by
  rw [signedStep] at signed
  split at signed
  · cases signed
  · cases signed
    cases forward
    · rw [runSign_false, Scalar.abs_rat, neg_one_mul, if_neg Bool.false_ne_true]
    · rw [runSign_true, Scalar.abs_rat, one_mul, if_pos rfl]

/-- A run takes steps of the given size in its direction. -/
theorem prepare_size (prepared : e.prepare equation t0 y0 target = .ok course) :
    course.h = runSign course.forward * |e.stepSize| := by
  simp only [prepare, except_bind_ok, except_guard_ok] at prepared
  obtain ⟨_, _, _, _, _, h, signed, same⟩ := prepared
  cases same
  exact signedStep_ok signed

/-- The course of a run keeps what the run was given and is directed to the target. -/
theorem prepare_ok (usable : e.Usable) (prepared : e.prepare equation t0 y0 target = .ok course) :
    course.Directed e.watches t0 ∧ course.equation = equation ∧ course.stepper = e.stepper ∧
      course.target = target ∧ course.budget = e.maxSteps ∧ course.forward = decide (t0 < target) := by
  have step := prepare_size prepared
  simp only [prepare, except_bind_ok, except_guard_ok] at prepared
  obtain ⟨_, _, _, _, apart, h, _, same⟩ := prepared
  cases same
  have different : t0 ≠ target := ne_of_apart apart
  have size : 0 < |e.stepSize| := abs_pos.mpr usable.size
  refine ⟨⟨?_, ?_, usable.valid⟩, rfl, rfl, rfl, rfl, rfl⟩
  · by_cases later : t0 < target
    · rw [decide_eq_true later]
      exact later
    · rw [decide_eq_false later]
      exact lt_of_le_of_ne (not_lt.mp later) (Ne.symm different)
  · rw [step, ← mul_assoc]
    by_cases later : t0 < target
    · simpa [later, runSign_true] using usable.size
    · simpa [later, runSign_false] using usable.size

variable [Spacing Rat] {w w' : ω} {e' : Engine ω Rat} {r : Except (Error Rat) (Rat × State Rat)}
  {s : Session ω Rat}

/-- A run that its inputs rule out is refused and leaves the engine as it is; the account of any
other run is that of its session. -/
theorem integrate_run (ran : (integrate equation t0 y0 target).runFrom (e, w) = (r, e', w')) :
    ((∃ error, e.prepare equation t0 y0 target = .error error ∧ r = .error error) ∧ e' = e ∧ w' = w) ∨
      ∃ course session, e.prepare equation t0 y0 target = .ok course ∧
        (course.run t0 y0).runFrom (Session.start w (Monitor.create e.watches) e.observers) = (r, session) ∧
        e'.journal = session.journal ∧ e'.accepted = session.accepted ∧
        e'.evaluations = session.tally.evaluations ∧ e'.observers = session.observers := by
  rw [integrate, Effect.runFrom_bind, Effect.runFrom_get] at ran
  dsimp only at ran
  rw [Effect.runFrom_bind, Effect.runFrom_lift] at ran
  cases prepared : e.prepare equation t0 y0 target with
  | error error =>
    rw [prepared] at ran
    cases ran
    exact Or.inl ⟨⟨error, rfl, rfl⟩, rfl, rfl⟩
  | ok course =>
    rw [prepared] at ran
    dsimp only at ran
    simp only [Effect.runFrom_bind, Effect.runFrom_modify, Effect.runFrom_lift] at ran
    cases ran
    exact Or.inr ⟨course, ((course.run t0 y0).runFrom (Session.start w (Monitor.create e.watches) e.observers)).2,
      rfl, rfl, rfl, rfl, rfl, rfl⟩

/-- The account of a run is that of a path of moves, which leads to the end of the run if it
returns. -/
theorem run_path {u : Session ω Rat} (ran : (course.run t0 y0).runFrom u = (r, s)) :
    ∃ stage v, Moves course (.opening t0 y0, u) (stage, v) ∧ v.SameAccount s ∧
      ∀ t y, r = .ok (t, y) → stage = .ended t y ∧ v = s := by
  cases r with
  | ok final =>
    refine ⟨_, s, run_follows.1 final s ran, .refl s, fun t y same => ?_⟩
    cases same
    exact ⟨rfl, rfl⟩
  | error failure =>
    obtain ⟨stage, v, path, same, _⟩ := run_follows.2 failure s ran
    exact ⟨stage, v, path, same, fun t y impossible => by cases impossible⟩

/-- A run that fails is a path of moves to a stage at which the next thing fails. -/
theorem run_failure {u : Session ω Rat} {failure : Error Rat}
    (ran : (course.run t0 y0).runFrom u = (.error failure, s)) :
    ∃ stage v, Moves course (.opening t0 y0, u) (stage, v) ∧ Fails course stage v failure := by
  obtain ⟨stage, v, path, _, fails⟩ := run_follows.2 failure s ran
  exact ⟨stage, v, path, fails⟩

/-- A run that returns is a path of moves to its end, and its account is that of the session
there. -/
theorem integrate_path {t : Rat} {y : State Rat}
    (ran : (integrate equation t0 y0 target).runFrom (e, w) = (.ok (t, y), e', w')) :
    ∃ course u, e.prepare equation t0 y0 target = .ok course ∧
      Moves course (.opening t0 y0, Session.start w (Monitor.create e.watches) e.observers) (.ended t y, u) ∧
      e'.journal = u.journal ∧ e'.accepted = u.accepted ∧ e'.evaluations = u.tally.evaluations ∧
      e'.observers = u.observers := by
  rcases integrate_run ran with ⟨⟨_, _, refused⟩, _⟩ | ⟨course, u, prepared, ran, account⟩
  · cases refused
  · obtain ⟨_, v, path, _, returned⟩ := run_path ran
    obtain ⟨rfl, rfl⟩ := returned t y rfl
    exact ⟨course, v, prepared, path, account⟩

end Engine

end Trajectory
