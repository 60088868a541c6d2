import Mathlib.Tactic
import Trajectory.Proofs.Record
import Trajectory.Proofs.Renewal

/-!
The ways in which a call of an engine can end, and the account that it leaves.

A call that the checks of its inputs rule out (`Engine.Refuses`) changes nothing. Any other call fails exactly with
the errors of the things that a run does, wherever the run arrives at one of them (`Course.Exit`, `Course.run_exits`).
The counts of an account are compared with what the caller can see: a meter of the calls of the right-hand side
(`Engine.Meters`), a record of what the first observer is told, and a mark of the error that a function of the caller
has raised (`Engine.Marks`). `Engine.integrate_exits` says what all of these show after every end of a call, for an
engine with any history. This holds for every kind of scalars.

A function of the caller can also abort the program, as on a request to leave it. Such a call ends with the same account
as one that fails, but for the status: it remains that of a run that goes on (`Engine.aborted_running`), also through
calls that are ruled out later (`Engine.Reachable.status`).
-/

namespace Trajectory

open Effect

variable {σ τ ω α β ι : Type}

namespace Course

variable [Scalar α] [Spacing α]

/-- The points of a run at which a piece is about to be handed over. -/
inductive Offers (course : Course ω α) (t0 : α) (y0 : State α) (s₀ : Session ω α) :
    Handover ω α → Session ω α → Prop where
  | of {leg window s h s'} (scans : course.Scans t0 y0 s₀ leg window s)
      (surveyed : (course.survey leg window).runFrom s = (.ok h, s')) : Offers course t0 y0 s₀ h s'

/-- The errors with which a run can fail, one case for each thing that it does, with the session that is left. -/
inductive Exit (course : Course ω α) (t0 : α) (y0 : State α) (s₀ : Session ω α) : Error α → Session ω α → Prop where
  /-- The first evaluation of the right-hand side fails. -/
  | derivative {e s} (failed : (Session.onTally (course.equation.call t0 y0)).runFrom s₀ = (.error e, s)) :
      Exit course t0 y0 s₀ e s
  | derivativeSize {yp e s} (called : (Session.onTally (course.equation.call t0 y0)).runFrom s₀ = (.ok yp, s))
      (misfit : course.equation.requireSize .derivative yp = .error e) : Exit course t0 y0 s₀ e s
  /-- A handler fails when it is told of the start, or when its switching function is evaluated there. -/
  | watch {yp e s s'} (called : (Session.onTally (course.equation.call t0 y0)).runFrom s₀ = (.ok yp, s))
      (fits : course.equation.requireSize .derivative yp = .ok ())
      (failed : (Session.onMonitor (Monitor.init t0 y0 course.target)).runFrom s = (.error e, s')) :
      Exit course t0 y0 s₀ e s'
  /-- An observer fails when it is told of the start. -/
  | announce {yp e s s₁ s'} (called : (Session.onTally (course.equation.call t0 y0)).runFrom s₀ = (.ok yp, s))
      (fits : course.equation.requireSize .derivative yp = .ok ())
      (watched : (Session.onMonitor (Monitor.init t0 y0 course.target)).runFrom s = (.ok (), s₁))
      (failed : (Session.onObservers (forEach (Observer.start t0 y0 course.target))).runFrom s₁ = (.error e, s')) :
      Exit course t0 y0 s₀ e s'
  | step {t y yp s e s'} (arrives : course.Arrives t0 y0 s₀ (.stepping t y yp) s)
      (failed : (course.nextLeg t y yp).runFrom s = (.error e, s')) : Exit course t0 y0 s₀ e s'
  /-- A switching function fails, or a root cannot be isolated. -/
  | scan {leg window s e s'} (scans : course.Scans t0 y0 s₀ leg window s)
      (failed : (scan window).runFrom s = (.error e, s')) : Exit course t0 y0 s₀ e s'
  /-- The window cannot be cut off at the event, or a handler fails when it is asked about it. -/
  | react {leg window first rest s s₁ e s'} (scans : course.Scans t0 y0 s₀ leg window s)
      (found : (Course.scan window).runFrom s = (.ok (first :: rest), s₁))
      (failed : (course.reacting leg window first.t (first :: rest)).runFrom
        { s₁ with latestEntries := .located window (first :: rest) :: s₁.latestEntries } = (.error e, s')) :
      Exit course t0 y0 s₀ e s'
  | exhausted {h s} (offers : course.Offers t0 y0 s₀ h s) (spent : course.budget ≤ s.accepted) :
      Exit course t0 y0 s₀ (.stepsExhausted course.budget h.piece.start course.target) s
  /-- An observer fails when it is told of a piece. -/
  | deliver {h s e s'} (offers : course.Offers t0 y0 s₀ h s) (affordable : s.accepted < course.budget)
      (failed : (Session.deliver h.piece h.last).runFrom s = (.error e, s')) : Exit course t0 y0 s₀ e s'
  /-- What comes after the handover of a piece fails: a handler supplies no state, or one of the wrong size, or a
  switching function fails at the end of the piece. -/
  | resume {h s s₁ e s'} (offers : course.Offers t0 y0 s₀ h s) (affordable : s.accepted < course.budget)
      (delivered : (Session.deliver h.piece h.last).runFrom s = (.ok (), s₁))
      (failed : h.rest.runFrom s₁ = (.error e, s')) : Exit course t0 y0 s₀ e s'

variable {course : Course ω α} {t0 : α} {y0 : State α} {s₀ s s' : Session ω α} {e : Error α} {leg : Leg α}
  {window : Window α} {phase : Phase α}

theorem exit_of_begin (failed : (course.begin t0 y0).runFrom s₀ = (.error e, s')) : course.Exit t0 y0 s₀ e s' := by
  simp only [Course.begin, runFrom_bind_error] at failed
  rcases failed with failed | ⟨yp, s₁, called, failed⟩
  · exact .derivative failed
  rcases failed with failed | ⟨_, s₂, sized, failed | ⟨_, s₃, watched, failed | ⟨_, _, _, left⟩⟩⟩
  · obtain ⟨misfit, rfl⟩ := runFrom_lift_iff.mp failed
    exact .derivativeSize called misfit
  · obtain ⟨fits, rfl⟩ := runFrom_lift_iff.mp sized
    exact .watch called fits failed
  · obtain ⟨fits, rfl⟩ := runFrom_lift_iff.mp sized
    exact .announce called fits watched failed
  · cases left

theorem exit_of_survey (scans : course.Scans t0 y0 s₀ leg window s)
    (failed : (course.survey leg window).runFrom s = (.error e, s')) : course.Exit t0 y0 s₀ e s' := by
  rcases runFrom_bind_error.mp failed with failed | ⟨group, s₁, found, failed⟩
  · exact .scan scans failed
  · cases group with
    | nil => cases failed
    | cons first rest =>
      rcases runFrom_bind_error.mp failed with failed | ⟨_, _, noted, failed⟩
      · cases failed
      · cases noted
        exact .react scans found failed

theorem exit_of_handOver {h : Handover ω α} (offers : course.Offers t0 y0 s₀ h s)
    (failed : (course.handOver h).runFrom s = (.error e, s')) : course.Exit t0 y0 s₀ e s' := by
  rw [runFrom_handOver] at failed
  split at failed
  · rename_i spent
    cases failed
    exact .exhausted offers spent
  · rename_i affordable
    rcases runFrom_bind_error.mp failed with failed | ⟨_, s₁, delivered, failed⟩
    · exact .deliver offers (not_le.mp affordable) failed
    · exact .resume offers (not_le.mp affordable) delivered failed

theorem exit_of_scanning (scans : course.Scans t0 y0 s₀ leg window s)
    (failed : (course.survey leg window >>= course.handOver).runFrom s = (.error e, s')) :
    course.Exit t0 y0 s₀ e s' := by
  rcases runFrom_bind_error.mp failed with failed | ⟨h, s₁, surveyed, failed⟩
  · exact exit_of_survey scans failed
  · exact exit_of_handOver (.of scans surveyed) failed

/-- A pass that fails does so in one of the things that it does. -/
theorem exit_of_pass (arrives : course.Arrives t0 y0 s₀ phase s)
    (failed : (course.pass phase).runFrom s = (.error e, s')) : course.Exit t0 y0 s₀ e s' := by
  rw [pass_eq] at failed
  cases phase with
  | scanning leg window => exact exit_of_scanning (.left arrives) failed
  | stepping t y yp =>
    rw [approach, bind_assoc] at failed
    rcases runFrom_bind_error.mp failed with failed | ⟨leg, s₁, taken, failed⟩
    · exact .step arrives failed
    · exact exit_of_scanning (.fresh arrives taken) failed

theorem Scans.broken (scans : course.Scans t0 y0 s₀ leg window s)
    (failed : (course.survey leg window >>= course.handOver).runFrom s = (.error e, s')) :
    ∃ phase s₁, course.Arrives t0 y0 s₀ phase s₁ ∧ (course.pass phase).runFrom s₁ = (.error e, s') := by
  obtain ⟨phase, s₁, arrives, same⟩ := scans.pass
  exact ⟨phase, s₁, arrives, same.trans failed⟩

/-- A piece is handed over in a pass from a point at which the run arrives. -/
theorem Offers.pass {h : Handover ω α} (offers : course.Offers t0 y0 s₀ h s)
    (failed : (course.handOver h).runFrom s = (.error e, s')) :
    ∃ phase s₁, course.Arrives t0 y0 s₀ phase s₁ ∧ (course.pass phase).runFrom s₁ = (.error e, s') := by
  cases offers with
  | of scans surveyed => exact scans.broken (runFrom_bind_error.mpr (Or.inr ⟨h, s, surveyed, failed⟩))

/-- A run fails exactly with the errors of the things that it does, and leaves what they leave. -/
theorem run_exits (fresh : s₀.accepted = 0) :
    (course.run t0 y0).runFrom s₀ = (.error e, s') ↔ course.Exit t0 y0 s₀ e s' := by
  rw [run_ends fresh]
  constructor
  · intro outcome
    cases outcome with
    | unbegun failed => exact exit_of_begin failed
    | broken arrives failed => exact exit_of_pass arrives failed
  · have passing (passed : ∃ phase s₁, course.Arrives t0 y0 s₀ phase s₁ ∧
        (course.pass phase).runFrom s₁ = (.error e, s')) : course.Outcome t0 y0 s₀ (.error e) s' := by
      obtain ⟨phase, s₁, arrives, failed⟩ := passed
      exact .broken arrives failed
    intro exit
    cases exit with
    | derivative failed => exact .unbegun (by simp only [Course.begin, runFrom_bind, failed])
    | derivativeSize called misfit =>
      exact .unbegun (by simp only [Course.begin, runFrom_bind, called, runFrom_lift, misfit])
    | watch called fits failed =>
      exact .unbegun (by simp only [Course.begin, runFrom_bind, called, runFrom_lift, fits, failed])
    | announce called fits watched failed =>
      exact .unbegun (by simp only [Course.begin, runFrom_bind, called, runFrom_lift, fits, watched, failed])
    | step arrives failed =>
      refine .broken arrives ?_
      rw [pass_eq, approach, bind_assoc]
      exact runFrom_bind_error.mpr (Or.inl failed)
    | scan scans failed =>
      exact passing (scans.broken (runFrom_bind_error.mpr (Or.inl (runFrom_bind_error.mpr (Or.inl failed)))))
    | react scans found failed =>
      refine passing (scans.broken (runFrom_bind_error.mpr (Or.inl (runFrom_bind_error.mpr (Or.inr ⟨_, _, found, ?_⟩)))))
      exact runFrom_bind_error.mpr (Or.inr ⟨_, _, rfl, failed⟩)
    | exhausted offers spent => exact passing (offers.pass (by rw [runFrom_handOver, if_pos spent]))
    | deliver offers affordable failed =>
      refine passing (offers.pass ?_)
      rw [runFrom_handOver, if_neg (not_le.mpr affordable)]
      exact runFrom_bind_error.mpr (Or.inl failed)
    | resume offers affordable delivered failed =>
      refine passing (offers.pass ?_)
      rw [runFrom_handOver, if_neg (not_le.mpr affordable)]
      exact runFrom_bind_error.mpr (Or.inr ⟨_, _, delivered, failed⟩)

end Course

/-- An observer of the caller whose calls honour some terms. -/
def Observer.Honours (T : Terms (Account ω α) α) : Observer ω α → Prop
  | .recorder _ => True
  | .sampler _ => True
  | .normalizer n => ∀ t y last, (n.callback t y last).Honours T
  | .tracker _ => True
  | .custom onStart onPiece => (∀ t y target, (onStart t y target).Honours T) ∧
      ∀ piece last, (onPiece piece last).Honours T

section

variable {T : Terms (Account ω α) α} {n : Nat} {pieces : List (Window α × Bool)}

/-- The terms on the state of the caller next to a normalizer whose callback honours them. -/
abbrev Normalizer.Heeded (T : Terms (Account ω α) α) (n : Nat) (pieces : List (Window α × Bool)) :
    Terms (Normalizer ω α × ω) α :=
  (T.world n pieces).beside fun m : Normalizer ω α => ∀ t y last, (m.callback t y last).Honours T

/-- From one state a computation keeps the terms that another one keeps, if it does what the other does from a state
that belongs to it. -/
theorem Effect.keeps_as {V : Terms τ α} {U : Terms σ α} {z : Effect τ α β} {x : Effect σ α β} {P : β → Prop}
    (keeps : z.Keeps V P) {t : τ} {s : σ} (holds : V.holds t) (put : τ → σ)
    (same : x.runFrom s = ((z.runFrom t).1, put (z.runFrom t).2)) (written : ∀ t', V.holds t' → U.holds (put t'))
    (failed : ∀ e t', V.failed e t' → U.failed e (put t')) :
    (∀ b s', x.runFrom s = (.ok b, s') → P b ∧ U.holds s') ∧ ∀ e s', x.runFrom s = (.error e, s') → U.failed e s' := by
  obtain ⟨returns, fails⟩ := keeps t holds
  rw [same]
  generalize z.runFrom t = result at returns fails ⊢
  rcases result with ⟨e | b, t'⟩
  · refine ⟨fun b s' ran => ?_, fun e' s' ran => ?_⟩
    · cases ran
    · cases ran
      exact failed e t' (fails e t' rfl)
  · refine ⟨fun b' s' ran => ?_, fun e s' ran => ?_⟩
    · cases ran
      obtain ⟨kind, after⟩ := returns b t' rfl
      exact ⟨kind, written t' after⟩
    · cases ran

variable [Scalar α]

/-- At the start of a run, observers that honour terms keep them. -/
theorem Observer.keeps_start (t0 : α) (y0 : State α) (target : α) :
    (start t0 y0 target).Keeps ((T.world n pieces).beside (Observer.Honours T)) fun _ => True := by
  rintro ⟨o, w⟩ ⟨honours, holds⟩
  have opened : (o.opening t0 y0 target).Keeps (T.world n pieces) fun _ => True := by
    cases o with
    | recorder r => exact keeps_pure trivial
    | sampler s => exact keeps_pure trivial
    | normalizer m => exact honours t0 y0 false n pieces
    | tracker k => exact keeps_pure trivial
    | custom onStart onPiece => exact honours.1 t0 y0 target n pieces
  have begun : (o.begun t0 y0 target).Honours T := by
    cases o <;> exact honours
  exact keeps_as opened holds (o.begun t0 y0 target, ·) (o.runFrom_start w) (fun _ after => ⟨begun, after⟩)
    fun _ _ => id

variable [Spacing α]

theorem Normalizer.keeps_report (piece : Window α) (last : Bool) (rounds : Nat) :
    (report piece last rounds).Keeps (Heeded T n pieces) fun _ => True := by
  induction rounds with
  | zero => exact keeps_throw _
  | succ rounds ih =>
    refine keeps_get fun p known => keeps_ite (keeps_pure trivial) (keeps_bind (keeps_modify fun _ => id) fun _ _ => ?_)
    refine keeps_bind (keeps_lift (P := fun _ => True) fun _ _ => trivial) fun y _ => ?_
    exact keeps_bind (Monitor.keeps_onSecond (known.1 _ y _ n pieces)) fun _ _ => ih

theorem Normalizer.keeps_accept (piece : Window α) (last : Bool) :
    (accept piece last).Keeps (Heeded T n pieces) fun _ => True := by
  refine keeps_get fun _ _ => keeps_bind (keeps_report piece last _) fun _ _ => keeps_get fun p known => ?_
  refine keeps_ite (keeps_bind (keeps_modify fun _ => id) fun _ _ => ?_) (keeps_pure trivial)
  exact Monitor.keeps_onSecond (known.1 _ _ _ n pieces)

/-- Observers that honour terms keep them when they are told of a piece. -/
theorem Observer.keeps_accept (piece : Window α) (last : Bool) :
    (accept piece last).Keeps ((T.world n pieces).beside (Observer.Honours T)) fun _ => True := by
  rintro ⟨o, w⟩ ⟨honours, holds⟩
  have still (r : Except (Error α) Unit) : (liftM r : Effect ω α Unit).Keeps (T.world n pieces) fun _ => True :=
    keeps_lift fun _ _ => trivial
  cases o with
  | recorder r =>
    exact keeps_as (still (.ok ())) holds (.recorder (r.accept piece last), ·) rfl (fun _ after => ⟨trivial, after⟩)
      fun _ _ => id
  | sampler s =>
    refine keeps_as (still (s.accept piece).1) holds (.sampler (s.accept piece).2, ·) ?_
      (fun _ after => ⟨trivial, after⟩) fun _ _ => id
    rw [runFrom_lift]
    rfl
  | normalizer m =>
    exact keeps_as (Normalizer.keeps_accept (T := T) piece last) (t := (m, w)) ⟨honours, holds⟩
      (fun p => (.normalizer p.1, p.2)) rfl (fun _ after => after) fun _ _ => id
  | tracker k =>
    refine keeps_as (still ((Tracker.accept piece last).runFrom k).1) holds
      (.tracker ((Tracker.accept piece last).runFrom k).2, ·) ?_ (fun _ after => ⟨trivial, after⟩) fun _ _ => id
    rw [runFrom_lift]
    rfl
  | custom onStart onPiece =>
    exact keeps_as (honours.2 piece last n pieces) holds (.custom onStart onPiece, ·) rfl
      (fun _ after => ⟨honours, after⟩) fun _ _ => id

end

namespace Terms

/-- A meter of the calls of the right-hand side shows as many more as there have been evaluations. -/
def metering (calls : ω → Nat) (base : Nat) : Terms (Account ω α) α where
  holds a := calls a.world = base + a.evaluations
  failed _ a := calls a.world = base + a.evaluations
  fails _ _ := id

/-- Nothing has been raised, or the error with which the run fails. -/
def marking (raised : ω → Option (Error α)) : Terms (Account ω α) α where
  holds a := raised a.world = none
  failed e a := ∀ e', raised a.world = some e' → e' = e
  fails e a unmarked e' marked := by
    rw [unmarked] at marked
    cases marked

variable [Scalar α] [Spacing α] {t0 target : α} {y0 : State α}

theorem audience_metering {calls : ω → Nat} {base : Nat} :
    (metering calls base : Terms (Account ω α) α).Audience (metering calls base)
      (fun os => ∀ o ∈ os, o.Leaves calls) t0 y0 target :=
  ⟨fun n _ => (Observer.tells_start t0 y0 target).meets_leaves calls (base + n),
    fun piece last n _ => (Observer.tells_accept piece last).meets_leaves calls (base + n)⟩

theorem audience_marking {raised : ω → Option (Error α)} :
    (marking raised).Audience (marking raised) (fun os => ∀ o ∈ os, o.Honours (marking raised)) t0 y0 target := by
  have all (x : Effect (Observer ω α × ω) α Unit) (n : Nat) (pieces : List (Window α × Bool))
      (keeps : x.Keeps (((marking raised).world n pieces).beside (Observer.Honours (marking raised))) fun _ => True) :=
    meets_forEach (D := Observer.Honours (marking raised)) (W := fun w => raised w = none)
      (V := fun e w => ∀ e', raised w = some e' → e' = e)
      (keeps.mono (fun _ => id) (fun _ _ after => after.2) fun _ _ => id)
  exact ⟨fun n pieces => all _ n pieces (Observer.keeps_start t0 y0 target),
    fun piece last n pieces => all _ n pieces (Observer.keeps_accept piece last)⟩

end Terms

theorem Error.isFailure_eq_false {e : Error α} : e.isFailure = false ↔ ∃ reason, e = .aborted reason := by
  cases e <;> simp [isFailure]

/-- Only a run that was aborted still stands as running after its end. -/
theorem RunStatus.after_eq_running {outcome : Except (Error α) β} :
    after outcome = .running ↔ ∃ reason, outcome = .error (.aborted reason) := by
  cases outcome with
  | ok _ => simp [after]
  | error e =>
    simp only [Except.error.injEq, ← Error.isFailure_eq_false]
    cases failure : e.isFailure <;> simp [after, failure]

namespace Engine

/-- Calls of an engine that the checks of their inputs rule out, with the error: the times are not finite, the system
has no dimension, the initial state does not fit it, the times are too close to each other, or the step size is negative
in a run to a later time. -/
inductive Refuses [Scalar α] (e : Engine ω α) (t0 : α) (y0 : State α) (target : α) : Source ω α → Error α → Prop where
  | bounds {source} (unbounded : (Scalar.isFinite t0 && Scalar.isFinite target) = false) :
      Refuses e t0 y0 target source (.timeBounds t0 target)
  | function {f label} (bounded : (Scalar.isFinite t0 && Scalar.isFinite target) = true) :
      Refuses e t0 y0 target (.rate f label) (.noDimension "function")
  | other {kind} (bounded : (Scalar.isFinite t0 && Scalar.isFinite target) = true) :
      Refuses e t0 y0 target (.other kind) (.noDimension kind)
  | size {equation} (bounded : (Scalar.isFinite t0 && Scalar.isFinite target) = true)
      (misfit : equation.accepts y0 = false) :
      Refuses e t0 y0 target (.equation equation) (.dimension .state equation.dimension y0.size)
  | interval {equation} (bounded : (Scalar.isFinite t0 && Scalar.isFinite target) = true)
      (fits : equation.accepts y0 = true)
      (near : Scalar.abs (target - t0) ≤ 1e-12 * Scalar.larger (Scalar.abs t0) (Scalar.abs target)) :
      Refuses e t0 y0 target (.equation equation) (.interval t0 target)
  | direction {equation} (bounded : (Scalar.isFinite t0 && Scalar.isFinite target) = true)
      (fits : equation.accepts y0 = true)
      (apart : ¬ Scalar.abs (target - t0) ≤ 1e-12 * Scalar.larger (Scalar.abs t0) (Scalar.abs target))
      (forward : t0 < target) (negative : e.stepSize < 0.0) :
      Refuses e t0 y0 target (.equation equation) (.stepDirection e.stepSize)

section

variable [Scalar α] {e : Engine ω α} {t0 target : α} {y0 : State α}

/-- The checks of the inputs fail exactly with the errors of the calls that are ruled out. -/
theorem prepare_error_iff {equation : Equation ω α} {refused : Error α} :
    e.prepare equation t0 y0 target = .error refused ↔ e.Refuses t0 y0 target (.equation equation) refused := by
  have passes {check : Bool} {fault : Error α} {u : Unit}
      (passed : (if check then .ok () else .error fault : Except (Error α) Unit) = .ok u) : check = true := by
    split at passed
    · assumption
    · cases passed
  simp only [prepare, requireBounds, Equation.requireSize, signedStep, except_bind_error, except_guard_error]
  constructor
  · rintro (refused | ⟨_, bounded, refused | ⟨_, fits, ⟨near, rfl⟩ | ⟨apart, refused | ⟨_, _, ran⟩⟩⟩⟩)
    · split at refused
      · cases refused
      · cases refused
        exact .bounds (Bool.eq_false_of_not_eq_true ‹_›)
    · split at refused
      · cases refused
      · cases refused
        exact .size (passes bounded) (Bool.eq_false_of_not_eq_true ‹_›)
    · exact .interval (passes bounded) (passes fits) near
    · split at refused
      · cases refused
        rename_i negative
        simp only [Bool.and_eq_true, decide_eq_true_eq] at negative
        exact .direction (passes bounded) (passes fits) apart negative.1 negative.2
      · cases refused
    · cases ran
  · intro refuses
    cases refuses with
    | bounds unbounded => simp [unbounded]
    | size bounded misfit => simp [bounded, misfit]
    | interval bounded fits near => simp [bounded, fits, near]
    | direction bounded fits apart forward negative => simp [bounded, fits, apart, forward, negative]

variable {source : Source ω α}

theorem requireBounds_ok (bounded : (Scalar.isFinite t0 && Scalar.isFinite target) = true) :
    requireBounds t0 target = .ok () := if_pos bounded

/-- A call that no check rules out is given a system, and has a course. -/
theorem prepare_of_not_refuses (allowed : ∀ refused, ¬ e.Refuses t0 y0 target source refused) :
    ∃ equation course, source = .equation equation ∧ e.prepare equation t0 y0 target = .ok course := by
  cases bounded : Scalar.isFinite t0 && Scalar.isFinite target with
  | false => exact absurd (.bounds bounded) (allowed _)
  | true =>
    cases source with
    | rate f label => exact absurd (.function bounded) (allowed _)
    | other kind => exact absurd (.other bounded) (allowed _)
    | equation equation =>
      cases prepared : e.prepare equation t0 y0 target with
      | error refused => exact absurd (prepare_error_iff.mp prepared) (allowed _)
      | ok course => exact ⟨equation, course, rfl, prepared⟩

variable [Spacing α]

/-- A call that is ruled out changes nothing. -/
theorem integrateSource_refused {refused : Error α} (refuses : e.Refuses t0 y0 target source refused) (w : ω) :
    (integrateSource source t0 y0 target).runFrom (e, w) = (.error refused, e, w) := by
  cases source with
  | equation equation =>
    rw [integrateSource, integrate_eq_conduct]
    exact conduct_refused (prepare_error_iff.mpr refuses) w
  | rate f label =>
    cases refuses with
    | bounds unbounded => simp [integrateSource, requireBounds, unbounded]
    | function bounded => simp [integrateSource, requireBounds_ok bounded]
  | other kind =>
    cases refuses with
    | bounds unbounded => simp [integrateSource, requireBounds, unbounded]
    | other bounded => simp [integrateSource, requireBounds_ok bounded]

/-- Engines with any history, each with the end of the last call that was not ruled out, if there was one. -/
inductive Reachable : Option (Except (Error α) (α × State α)) → Engine ω α → Prop where
  | created {stepper size budget} {e : Engine ω α} (created : create stepper size budget = .ok e) : Reachable none e
  | addObserver {last} {e : Engine ω α} (o : Observer ω α) (earlier : Reachable last e) :
      Reachable last (e.addObserver o)
  | clearObservers {last} {e : Engine ω α} (earlier : Reachable last e) : Reachable last e.clearObservers
  | addHandler {last} {e e' : Engine ω α} {handler settings options} (earlier : Reachable last e)
      (added : e.addHandler handler settings options = .ok e') : Reachable last e'
  | clearHandlers {last} {e : Engine ω α} (earlier : Reachable last e) : Reachable last e.clearHandlers
  | refused {last} {e : Engine ω α} (call : Call ω α) (w : ω) (earlier : Reachable last e) {refused}
      (refuses : e.Refuses call.t0 call.y0 call.target call.source refused) :
      Reachable last ((integrateSource call.source call.t0 call.y0 call.target).runFrom (e, w)).2.1
  /-- A call, however it ends. -/
  | called {last} {e : Engine ω α} (call : Call ω α) (w : ω) (earlier : Reachable last e)
      (allowed : ∀ refused, ¬ e.Refuses call.t0 call.y0 call.target call.source refused) :
      Reachable (some ((integrateSource call.source call.t0 call.y0 call.target).runFrom (e, w)).1)
        ((integrateSource call.source call.t0 call.y0 call.target).runFrom (e, w)).2.1

/-- After a call that is not ruled out, an engine stands as the end of the call says. -/
theorem integrateSource_status (allowed : ∀ refused, ¬ e.Refuses t0 y0 target source refused) (w : ω) :
    let run := (integrateSource source t0 y0 target).runFrom (e, w)
    run.2.1.status = some (.after run.1) := by
  obtain ⟨equation, course, rfl, prepared⟩ := prepare_of_not_refuses allowed
  intro run
  have account : run = _ := runFrom_integrate prepared w
  rw [account]
  rfl

/-- Between its calls, an engine stands as the end of the last one says that was not ruled out. -/
theorem Reachable.status {last : Option (Except (Error α) (α × State α))} (reachable : e.Reachable last) :
    e.status = last.map .after := by
  induction reachable with
  | @created stepper size budget e created =>
    simp only [create, except_bind_ok, except_guard_ok] at created
    obtain ⟨_, _, _, same⟩ := created
    cases same
    rfl
  | addObserver o _ ih => exact ih
  | clearObservers _ ih => exact ih
  | addHandler _ added ih =>
    obtain ⟨_, rfl, _⟩ := addHandler_ok added
    exact ih
  | clearHandlers _ ih => exact ih
  | refused call w _ refuses ih =>
    rw [integrateSource_refused refuses]
    exact ih
  | called call w _ allowed _ => exact integrateSource_status allowed w

end

/-- A meter that counts the calls of the right-hand side of a system, and that nothing else touches. -/
structure Meters (e : Engine ω α) (equation : Equation ω α) (calls : ω → Nat) : Prop where
  eval : ∀ t y w, calls ((equation.eval t y).runFrom w).2 = calls w + 1
  onCompile : ∀ w, calls (equation.onCompile.runFrom w).2 = calls w + 1
  handlers : ∀ watch ∈ e.watches, watch.1.Leaves calls
  observers : ∀ o ∈ e.observers, o.Leaves calls

/-- A mark that the functions of the caller set only where they fail, to the error that they raise. -/
structure Marks (e : Engine ω α) (equation : Equation ω α) (raised : ω → Option (Error α)) : Prop where
  rate : equation.toRate.Honours (Terms.marking raised)
  handlers : ∀ watch ∈ e.watches, watch.1.Honours (Terms.marking raised)
  observers : ∀ o ∈ e.observers, o.Honours (Terms.marking raised)

variable [Scalar α] [Spacing α]

/-- The end of a call, and the account that it leaves. -/
structure Concludes (e : Engine ω α) (equation : Equation ω α) (t0 : α) (y0 : State α) (target : α) (w : ω)
    (run : Except (Error α) (α × State α) × Engine ω α × ω) : Prop where
  done : ∀ result, run.1 = .ok result → run.2.1.status = some .done
  failed : ∀ error, error.isFailure = true → run.1 = .error error → run.2.1.status = some .failed
  running : run.2.1.status = some .running ↔ ∃ reason, run.1 = .error (.aborted reason)
  /-- The call fails with the errors of the things that the run does, unchanged, and with no others. -/
  error_iff : ∀ error, run.1 = .error error ↔ ∃ course s, e.prepare equation t0 y0 target = .ok course ∧
    course.Exit t0 y0 (Session.start w (Monitor.create e.watches) e.observers) error s
  /-- If a function of the caller has raised an error, the call fails with it. -/
  raised : ∀ raised, e.Marks equation raised → raised w = none →
    ∀ error, raised run.2.2 = some error → run.1 = .error error
  /-- All calls of the right-hand side that were begun are counted, also one that fails. -/
  evaluations : ∀ calls, e.Meters equation calls → calls run.2.2 = calls w + run.2.1.evaluations
  accepted : run.2.1.accepted = run.2.1.journal.pieces.length
  budget : run.2.1.accepted ≤ e.maxSteps
  /-- The handover of all pieces in the journal was begun, and of no others. -/
  handed : ∀ heard, e.RecordAt equation heard 0 → ∃ messages, heard run.2.2 = heard w ++ messages ∧
    messages.filterMap Message.piece? = run.2.1.journal.pieces

variable {e : Engine ω α} {equation : Equation ω α} {t0 target : α} {y0 : State α} {course : Course ω α}
  {outcome : Except (Error α) (α × State α)} {w : ω} {s : Session ω α}

section

variable (prepared : e.prepare equation t0 y0 target = .ok course)
  (ran : (course.run t0 y0).runFrom (Session.start w (Monitor.create e.watches) e.observers) = (outcome, s))

include prepared ran

/-- However a run ends, a meter shows as many more calls as have been counted. -/
theorem meters_run {calls : ω → Nat} (meters : e.Meters equation calls) :
    calls s.tally.world = calls w + s.tally.evaluations := by
  obtain rfl := equation_of_prepare prepared
  have reads : (Terms.metering calls (calls w) : Terms (Account ω α) α).Reads calls :=
    fun _ _ _ _ same before => same.trans before
  have handlers (handler : Handler ω α) (leaves : handler.Leaves calls) :
      handler.Honours (Terms.metering calls (calls w)) := leaves.honours reads
  have counts {β : Type} {x : Effect ω α β} (one : ∀ v, calls (x.runFrom v).2 = calls v + 1) :
      x.Counts (Terms.metering calls (calls w)) := by
    refine fun n pieces => meets_anyway fun v before => ?_
    have shown : calls (x.runFrom v).2 = calls w + (n + 1) := by rw [one, before, Nat.add_assoc]
    exact shown
  have rate : course.equation.toRate.Honours (Terms.metering calls (calls w)) :=
    ⟨fun t y => counts (meters.eval t y), counts meters.onCompile⟩
  have begun : ((Terms.metering calls (calls w)).session (Handler.Leaves calls)
      fun os => ∀ o ∈ os, o.Leaves calls).holds (Session.start w (Monitor.create e.watches) e.observers) :=
    ⟨rfl, forall_watched meters.handlers, meters.observers⟩
  obtain ⟨returned, failed⟩ :=
    Course.meets_run handlers rate handlers (fun _ _ => id) rate Terms.audience_metering _ begun
  cases outcome with
  | ok result => exact (returned result s ran).1
  | error e => exact failed e s ran

/-- However a run ends, what a function of the caller has raised is what it fails with. -/
theorem marks_run {raised : ω → Option (Error α)} (marks : e.Marks equation raised) (unmarked : raised w = none)
    {error : Error α} (noted : raised s.tally.world = some error) : outcome = .error error := by
  obtain rfl := equation_of_prepare prepared
  have begun : ((Terms.marking raised).session (fun handler => handler.Honours (Terms.marking raised))
      fun os => ∀ o ∈ os, o.Honours (Terms.marking raised)).holds
      (Session.start w (Monitor.create e.watches) e.observers) :=
    ⟨unmarked, forall_watched marks.handlers, marks.observers⟩
  obtain ⟨returned, failed⟩ :=
    Course.meets_run (fun _ => id) marks.rate (fun _ => id) (fun _ _ => id) marks.rate Terms.audience_marking _ begun
  cases outcome with
  | ok result =>
    have unraised : raised s.tally.world = none := (returned result s ran).1
    rw [unraised] at noted
    cases noted
  | error e => rw [failed e s ran error noted]

end

/-- A call that the checks do not rule out ends with an account of what it has done. -/
theorem integrate_concludes (prepared : e.prepare equation t0 y0 target = .ok course) (w : ω) :
    e.Concludes equation t0 y0 target w ((integrate equation t0 y0 target).runFrom (e, w)) := by
  rcases ran : (course.run t0 y0).runFrom (Session.start w (Monitor.create e.watches) e.observers) with ⟨outcome, s⟩
  have account := runFrom_integrate prepared w
  rw [ran] at account
  rw [account]
  obtain ⟨accepted, budget, _, _⟩ := Course.run_pieces rfl rfl ran
  constructor
  · rintro result rfl
    rfl
  · rintro error failure rfl
    exact congrArg some (if_pos failure)
  · exact Option.some_inj.trans RunStatus.after_eq_running
  · intro error
    constructor
    · rintro rfl
      exact ⟨course, s, prepared, (Course.run_exits rfl).mp ran⟩
    · rintro ⟨other, s', prepared', exit⟩
      cases prepared.symm.trans prepared'
      have failed := (Course.run_exits rfl).mpr exit
      rw [ran] at failed
      exact congrArg Prod.fst failed
  · exact fun raised marks unmarked error noted => marks_run prepared ran marks unmarked noted
  · exact fun calls meters => meters_run prepared ran meters
  · exact accepted
  · exact budget_of_prepare prepared ▸ budget
  · intro heard place
    obtain ⟨messages, told, _, first, _⟩ := Course.run_messages (equation_of_prepare prepared ▸ place.rate) rfl
      (forall_watched place.handlers) place.observers ran
    exact ⟨messages, told, first rfl⟩

/-- The end of every call of an engine with any history. A call that the checks of its inputs rule out changes nothing.
Any other call ends with an account of what it has done. After a call the engine stands as running if a function of the
caller has aborted the call, or the last one that was not ruled out, and only then. -/
theorem integrate_exits {last : Option (Except (Error α) (α × State α))} (reachable : e.Reachable last)
    (source : Source ω α) (t0 : α) (y0 : State α) (target : α) (w : ω) :
    let run := (integrateSource source t0 y0 target).runFrom (e, w)
    (∀ refused, e.Refuses t0 y0 target source refused → run = (.error refused, e, w) ∧
        (run.2.1.status = some .running ↔ ∃ reason, last = some (.error (.aborted reason)))) ∧
      ((∀ refused, ¬ e.Refuses t0 y0 target source refused) →
        ∃ equation, source = .equation equation ∧ e.Concludes equation t0 y0 target w run) := by
  intro run
  refine ⟨fun refused refuses => ?_, fun allowed => ?_⟩
  · have unchanged : run = (.error refused, e, w) := integrateSource_refused refuses w
    refine ⟨unchanged, ?_⟩
    rw [unchanged, reachable.status, Option.map_eq_some_iff]
    constructor
    · rintro ⟨outcome, ended, running⟩
      obtain ⟨reason, rfl⟩ := RunStatus.after_eq_running.mp running
      exact ⟨reason, ended⟩
    · rintro ⟨reason, ended⟩
      exact ⟨_, ended, rfl⟩
  · obtain ⟨equation, course, rfl, prepared⟩ := prepare_of_not_refuses allowed
    exact ⟨equation, rfl, integrate_concludes prepared w⟩

end Engine

/-- A state of the caller with a meter, a mark and a record. -/
structure Probe where
  calls : Nat
  raised : Option (Error Rat)
  heard : List (Message Rat)

/-- A right-hand side that raises an error from a time on. -/
def Equation.faltering (error : Error Rat) : Equation Probe Rat where
  eval t _ := do
    modify fun p => { p with calls := p.calls + 1 }
    if 1 ≤ t then
      modify fun p => { p with raised := some error }
      throw error
    return .ofList [1]
  onCompile := modify fun p => { p with calls := p.calls + 1 }
  compiled _ _ := .ok (.ofList [1])
  dimension := 1
  label := "faltering"

/-- An engine with an observer that keeps a record. -/
def Engine.probed : Engine Probe Rat where
  stepper := ⟨.euler, false⟩
  stepSize := 1 / 2
  maxSteps := 100
  watches := []
  observers := [.custom (fun t y target => modify fun p => { p with heard := p.heard ++ [.start t y target] })
    fun piece last => modify fun p => { p with heard := p.heard ++ [.piece (piece, last)] }]
  status := none
  evaluations := 0
  accepted := 0
  journal := []

theorem Engine.reachable_probed [Spacing Rat] : Engine.probed.Reachable none := by
  have created : (create ⟨.euler, false⟩ (1 / 2) 100 : Except (Error Rat) (Engine Probe Rat)) =
      .ok ⟨⟨.euler, false⟩, 1 / 2, 100, [], [], none, 0, 0, []⟩ := by
    simp [create, checkStepSize, except_bind_ok, pure, Except.pure]
  exact .addObserver _ (.created created)

theorem Engine.probed_meters (error : Error Rat) : Engine.probed.Meters (.faltering error) Probe.calls := by
  refine ⟨fun t y w => ?_, fun w => rfl, fun _ mem => absurd mem List.not_mem_nil, fun o mem => ?_⟩
  · by_cases late : 1 ≤ t
    · simp [Equation.faltering, late]
    · simp [Equation.faltering, late]
  · rw [List.mem_singleton.mp mem]
    exact ⟨fun _ _ _ _ => rfl, fun _ _ _ => rfl⟩

theorem Engine.probed_marks (error : Error Rat) : Engine.probed.Marks (.faltering error) Probe.raised := by
  have quiet {x : Effect Probe Rat Unit} (leaves : x.Leaves Probe.raised) :
      x.Honours (Terms.marking Probe.raised) :=
    leaves.honours fun _ _ _ _ same unmarked => same.trans unmarked
  refine ⟨⟨fun t y n pieces w unmarked => ?_, ?_⟩, fun _ mem => absurd mem List.not_mem_nil, fun o mem => ?_⟩
  · by_cases late : 1 ≤ t
    · refine ⟨fun b w' ran => ?_, fun e w' ran => ?_⟩
      · simp [Equation.faltering, late] at ran
      · simp only [Equation.faltering, late, if_true, runFrom_bind, runFrom_modify, runFrom_throw] at ran
        cases ran
        rintro _ ⟨⟩
        rfl
    · refine ⟨fun b w' ran => ?_, fun e w' ran => ?_⟩
      · simp only [Equation.faltering, late, if_false, runFrom_bind, runFrom_modify, runFrom_pure] at ran
        cases ran
        exact unmarked
      · simp [Equation.faltering, late] at ran
  · have leaves : (Equation.faltering error).onCompile.Leaves Probe.raised := fun _ => rfl
    exact leaves.counts fun _ _ _ _ _ same unmarked => same.trans unmarked
  · rw [List.mem_singleton.mp mem]
    exact ⟨fun _ _ _ => quiet fun _ => rfl, fun _ _ => quiet fun _ => rfl⟩

theorem Engine.probed_record (error : Error Rat) : Engine.probed.RecordAt (.faltering error) Probe.heard 0 := by
  refine ⟨⟨fun t y w => ?_, fun _ => rfl⟩, fun _ mem => absurd mem List.not_mem_nil, .here ?_ fun _ mem => ?_⟩
  · by_cases late : 1 ≤ t
    · simp [Equation.faltering, late]
    · simp [Equation.faltering, late]
  · exact ⟨fun _ _ _ _ => rfl, fun _ _ _ => rfl⟩
  · cases mem

/-- A run in which the third evaluation fails, after one piece. -/
theorem Engine.probed_exits :
    letI := Spacing.gapless
    let faltering : Equation Probe Rat := .faltering (.raised "late")
    let run := (integrateSource (.equation faltering) 0 (.ofList [0]) 2).runFrom (probed, ⟨0, none, []⟩)
    probed.Reachable none ∧ probed.Meters faltering Probe.calls ∧ probed.Marks faltering Probe.raised ∧
      probed.RecordAt faltering Probe.heard 0 ∧ run.1 = .error (.raised "late") ∧ run.2.1.status = some .failed ∧
      run.2.2.calls = 3 ∧ run.2.1.evaluations = 3 ∧ run.2.1.accepted = 1 ∧
      run.2.2.heard.filterMap Message.piece? = run.2.1.journal.pieces := by
  let := Spacing.gapless
  intro faltering run
  have meters : probed.Meters faltering Probe.calls := probed_meters _
  have marks : probed.Marks faltering Probe.raised := probed_marks _
  have place : probed.RecordAt faltering Probe.heard 0 := probed_record _
  have failed : run.2.1.status = some .failed := by decide +kernel
  have counted : run.2.1.evaluations = 3 := by decide +kernel
  have noted : run.2.2.raised = some (.raised "late") := by decide +kernel
  obtain ⟨refusal, ending⟩ := integrate_exits reachable_probed (.equation faltering) 0 (.ofList [0]) 2 ⟨0, none, []⟩
  have allowed (refused : Error Rat) :
      ¬ probed.Refuses 0 (.ofList [0]) 2 (.equation faltering) refused := by
    intro refuses
    have same : run.2.1.status = none := congrArg (fun run => run.2.1.status) (refusal refused refuses).1
    rw [failed] at same
    cases same
  obtain ⟨equation, same, concludes⟩ := ending allowed
  cases same
  obtain ⟨messages, told, handed⟩ := concludes.handed Probe.heard place
  refine ⟨reachable_probed, meters, marks, place, concludes.raised Probe.raised marks rfl _ noted, failed, ?_, counted,
    by decide +kernel, ?_⟩
  · have shown := concludes.evaluations Probe.calls meters
    rw [counted] at shown
    exact shown
  · rw [← handed]
    exact congrArg _ told

/-- A run that the third evaluation aborts leaves the engine as running, though it has ended. -/
theorem Engine.aborted_running :
    letI := Spacing.gapless
    let run := (integrateSource (.equation (.faltering (.aborted "late"))) 0 (.ofList [0]) 2).runFrom
      (probed, ⟨0, none, []⟩)
    probed.Reachable none ∧ run.1 = .error (.aborted "late") ∧ run.2.2.calls = 3 ∧
      run.2.1.status = some .running := by
  let := Spacing.gapless
  exact ⟨reachable_probed, by decide +kernel, by decide +kernel, by decide +kernel⟩

end Trajectory
