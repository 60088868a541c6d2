import Mathlib.Tactic
import Trajectory.Proofs.Delivery
import Trajectory.Proofs.Observer.Renewal
import Trajectory.Proofs.Timer
import Trajectory.Proofs.Twins

/-!
Runs that do not leak into each other.

Whatever runs an engine has carried out, it is left with the observers, the handlers and the settings that it was
made with (`Engine.renewed_after`). Before anything else is read of its observers they forget the runs before, so
that from there on a run is twin to that of an engine that has not run at all (`Course.twins_run`). If the functions
of the caller only write to a log, and do not read it, the two runs have the same outcome and the same account, and
write the same (`Engine.integrate_after`). This holds for every kind of scalars.
-/

namespace Trajectory

open Effect

variable {ω α β γ σ ι : Type}

/-- Logs that have grown from two given ones by the same entries, the latest first. -/
def Effect.Grown (w w₀ : List ι) (v v' : List ι) : Prop := ∃ new, v = new ++ w ∧ v' = new ++ w₀

/-- A computation of the caller that has one outcome, and does nothing but write to a log. -/
def Effect.Logs (x : Effect (List ι) α β) : Prop := ∃ r new, ∀ w, x.runFrom w = (r, new ++ w)

/-- A right-hand side whose calls do nothing but write to a log. -/
structure Rate.Logs (f : Rate (List ι) α) : Prop where
  eval : ∀ t y, (f.eval t y).Logs
  onCompile : f.onCompile.Logs

/-- A handler whose calls do nothing but write to a log. -/
structure Handler.Logs (handler : Handler (List ι) α) : Prop where
  init : ∀ t y target, (handler.init t y target).Logs
  g : ∀ t y, (handler.g t y).Logs
  eventOccurred : ∀ t y increasing, (handler.eventOccurred t y increasing).Logs
  resetState : ∀ t y, (handler.resetState t y).Logs

/-- An observer whose calls do nothing but write to a log. -/
def Observer.Logs : Observer (List ι) α → Prop
  | .recorder _ => True
  | .sampler _ => True
  | .normalizer n => ∀ t y last, (n.callback t y last).Logs
  | .tracker _ => True
  | .custom onStart onPiece => (∀ t y target, (onStart t y target).Logs) ∧ ∀ piece last, (onPiece piece last).Logs

section

variable (w w₀ : List ι)

theorem Effect.Logs.respects {x : Effect (List ι) α β} (logs : x.Logs) : x.Respects (Grown w w₀) := by
  rintro _ _ ⟨earlier, rfl, rfl⟩
  obtain ⟨r, new, always⟩ := logs
  rw [always, always]
  exact ⟨rfl, ⟨new ++ earlier, by simp, by simp⟩, fun _ _ => trivial⟩

theorem Rate.Logs.respects {f : Rate (List ι) α} (logs : f.Logs) : f.Respects (Grown w w₀) :=
  ⟨fun t y => (logs.eval t y).respects w w₀, logs.onCompile.respects w w₀⟩

theorem Handler.Logs.respects {handler : Handler (List ι) α} (logs : handler.Logs) :
    handler.Respects (Grown w w₀) := by
  constructor
  · exact fun t y target => (logs.init t y target).respects w w₀
  · exact fun t y => (logs.g t y).respects w w₀
  · exact fun t y increasing => (logs.eventOccurred t y increasing).respects w w₀
  · exact fun t y => (logs.resetState t y).respects w w₀

theorem Observer.Logs.respects {o : Observer (List ι) α} (logs : o.Logs) : o.Respects (Grown w w₀) := by
  cases o with
  | recorder r => trivial
  | sampler s => trivial
  | normalizer n => exact fun t y last => (logs t y last).respects w w₀
  | tracker k => trivial
  | custom onStart onPiece =>
    exact ⟨fun t y target => (logs.1 t y target).respects w w₀, fun piece last => (logs.2 piece last).respects w w₀⟩

end

/-- What a computation leaves alone in every element, it leaves alone in a list of them, also if it fails. -/
theorem Effect.map_forEach {x : Effect (σ × ω) α Unit} {f : σ → γ}
    (each : ∀ a w, f (x.runFrom (a, w)).2.1 = f a) (l : List σ) (w : ω) :
    ((forEach x).runFrom (l, w)).2.1.map f = l.map f := by
  induction l generalizing w with
  | nil => rfl
  | cons a rest ih =>
    have first := each a w
    rw [runFrom_forEach_cons]
    rcases ran : x.runFrom (a, w) with ⟨e | ⟨⟩, b, v⟩
    · rw [ran] at first
      exact congrArg (· :: rest.map f) first
    · rw [ran] at first
      exact congrArg₂ List.cons first (ih v)

namespace Course

variable [Scalar α] {W : ω → ω → Prop} {course : Course ω α} {s s' : Session ω α} {t0 : α} {y0 : State α}

/-- Once a run has begun, its observers are those at the start of a run. -/
theorem begin_begun {yp : State α} (ran : (course.begin t0 y0).runFrom s = (.ok yp, s')) :
    s'.observers = s.observers.map (Observer.begun t0 y0 course.target) := by
  have told := (begin_ok ran).2.2
  rw [eq_comm, ← List.forall₂_eq_eq_eq, List.forall₂_map_left_iff]
  refine told.imp ?_
  rintro o o' ⟨v, v', heard⟩
  rw [Observer.runFrom_start] at heard
  exact congrArg (fun p => p.2.1) heard

/-- Observers that were the same before their first runs are the same at the start of a run. -/
theorem begun_of_akin {os os' : List (Observer ω α)} (akin : List.Forall₂ (Observer.Akin W) os os') :
    os'.map (Observer.begun t0 y0 course.target) = os.map (Observer.begun t0 y0 course.target) := by
  induction akin with
  | nil => rfl
  | @cons o o' _ _ first _ ih =>
    rw [List.map_cons, List.map_cons, ih, ← Observer.begun_renewed, first.1, Observer.begun_renewed]

variable [Spacing α]

/-- The same observers, which were some others before their first runs. -/
def Kept (made : List (Observer ω α)) (os os' : List (Observer ω α)) : Prop :=
  os' = os ∧ os.map Observer.renewed = made

omit [Spacing α] in
theorem alike_kept {made : List (Observer ω α)} {x : Effect (Observer ω α × ω) α Unit}
    (each : ∀ o w, (x.runFrom (o, w)).2.1.renewed = o.renewed) :
    Alike (fun p q => Kept made p.1 q.1 ∧ p.2 = q.2) (fun _ => True) (forEach x) (forEach x) := by
  rintro ⟨_, w⟩ ⟨os, w'⟩ ⟨⟨rfl, same⟩, related⟩
  obtain rfl : w = w' := related
  exact ⟨rfl, ⟨⟨rfl, (map_forEach each os w).trans same⟩, rfl⟩, fun _ _ => trivial⟩

/-- A run leaves the observers that an engine was made with, however it ends. -/
theorem renewed_run (course : Course ω α) (t0 : α) (y0 : State α) (s : Session ω α) :
    ((course.run t0 y0).runFrom s).2.observers.map Observer.renewed = s.observers.map Observer.renewed := by
  have twins : s.Twins Eq True (Kept (s.observers.map Observer.renewed)) s :=
    ⟨⟨rfl, fun _ => rfl, rfl⟩, rfl, fun c _ => c.handler.respects_eq, ⟨rfl, rfl⟩, rfl, rfl⟩
  obtain ⟨_, twins', _⟩ := course.alike_run course.equation.toRate.respects_eq t0 y0
    (alike_kept Observer.renewed_start) (fun piece last => alike_kept fun o w => o.renewed_accept piece last w) s s twins
  exact twins'.observers.2

/-- From twins whose observers were the same before their first runs, a run does the same, and if it returns, its
observers are the same. -/
theorem twins_run (respects : course.equation.toRate.Respects W) (t0 : α) (y0 : State α)
    (twins : s.Twins W True (List.Forall₂ (Observer.Akin W)) s') :
    let run := (course.run t0 y0).runFrom s
    let run' := (course.run t0 y0).runFrom s'
    run'.1 = run.1 ∧ run.2.Twins W True (fun _ _ => True) run'.2 ∧
      (run.1.isOk = true → run'.2.observers = run.2.observers) := by
  obtain ⟨same, began, _⟩ := alike_begin respects t0 y0 (alike_forEach (Observer.alike_start t0 y0 course.target)) s s' twins
  rw [run_eq, runFrom_bind, runFrom_bind]
  rcases opened : (course.begin t0 y0).runFrom s with ⟨outcome, s₁⟩
  rcases opened' : (course.begin t0 y0).runFrom s' with ⟨outcome', s₁'⟩
  rw [opened, opened'] at same began
  obtain rfl : outcome' = outcome := same
  cases outcome' with
  | error e => exact ⟨rfl, began.mono fun _ => trivial, nofun⟩
  | ok yp =>
    -- All observers have heard of the start, and so the runs before it are forgotten.
    have forgotten : s₁'.observers = s₁.observers := by
      rw [begin_begun opened, begin_begun opened', begun_of_akin twins.observers]
    have ready : s₁.Twins W True (List.Forall₂ (Observer.Same W)) s₁' := by
      refine began.mono fun akin => ?_
      rw [forgotten] at akin ⊢
      exact List.forall₂_same.mpr fun o mem => ⟨rfl, (List.forall₂_same.mp akin o mem).2⟩
    have heard (piece : Window α) (last : Bool) := alike_forEach (Observer.alike_accept W piece last)
    obtain ⟨same, twins', _⟩ := alike_passes respects heard (course.budget + 1) (.stepping t0 y0 (some yp)) s₁ s₁' ready
    refine ⟨same, twins'.mono fun _ => trivial, fun _ => ?_⟩
    rw [eq_comm, ← List.forall₂_eq_eq_eq]
    exact twins'.observers.imp fun _ _ same => same.1.symm

end Course

/-- What a run is asked for. -/
structure Call (ω α : Type) where
  source : Source ω α
  t0 : α
  y0 : State α
  target : α

namespace Engine

variable [Scalar α]

/-- An engine with the same settings and handlers and with observers as they were before their first runs, that has
not carried out a run. -/
def renewed (e : Engine ω α) : Engine ω α :=
  { e with
    observers := e.observers.map Observer.renewed
    status := none
    evaluations := 0
    accepted := 0
    journal := [] }

omit [Scalar α] in
theorem foldl_watch (e : Engine ω α) (watches : List (Handler ω α × Settings α)) :
    watches.foldl (fun e watch => e.watch watch.1 watch.2) e = { e with watches := e.watches ++ watches } := by
  induction watches generalizing e with
  | nil => rw [List.foldl_nil, List.append_nil]
  | cons first rest ih => rw [List.foldl_cons, ih, watch, List.append_assoc, List.singleton_append]

omit [Scalar α] in
theorem foldl_addObserver (e : Engine ω α) (os : List (Observer ω α)) :
    os.foldl addObserver e = { e with observers := e.observers ++ os } := by
  induction os generalizing e with
  | nil => rw [List.foldl_nil, List.append_nil]
  | cons first rest ih => rw [List.foldl_cons, ih, addObserver, List.append_assoc, List.singleton_append]

/-- The engine that has not carried out a run is the one that is made afresh, with the same handlers and with new
observers. -/
theorem renewed_eq_built {e bare : Engine ω α} (created : create e.stepper e.stepSize e.maxSteps = .ok bare) :
    e.renewed = (e.observers.map Observer.renewed).foldl addObserver
      (e.watches.foldl (fun e watch => e.watch watch.1 watch.2) bare) := by
  simp only [create, checkStepSize, except_bind_ok, except_guard_ok] at created
  obtain ⟨size, checked, _, same⟩ := created
  split at checked
  · cases checked
  · cases checked
    cases same
    rw [foldl_watch, foldl_addObserver, renewed, List.nil_append, List.nil_append, Int.toNat_natCast]

theorem renewed_told {e : Engine ω α} {s : Session ω α}
    (kept : s.observers.map Observer.renewed = e.observers.map Observer.renewed)
    (outcome : Except (Error α) (α × State α)) : (e.told outcome s).renewed = e.renewed := by
  simp only [renewed, told, kept]

variable [Spacing α]

/-- An engine, and the state of the caller, after some runs, however each of them has ended. -/
def after (calls : List (Call ω α)) (p : Engine ω α × ω) : Engine ω α × ω :=
  calls.foldl (fun p call => ((integrateSource call.source call.t0 call.y0 call.target).runFrom p).2) p

theorem renewed_integrate (equation : Equation ω α) (t0 : α) (y0 : State α) (target : α) (p : Engine ω α × ω) :
    ((integrate equation t0 y0 target).runFrom p).2.1.renewed = p.1.renewed := by
  obtain ⟨e, w⟩ := p
  rw [integrate_eq_conduct]
  cases prepared : e.prepare equation t0 y0 target with
  | error refused => rw [conduct_refused prepared]
  | ok course =>
    rw [conduct_prepared prepared]
    exact renewed_told (course.renewed_run t0 y0 _) _

theorem renewed_integrateSource (source : Source ω α) (t0 : α) (y0 : State α) (target : α) (p : Engine ω α × ω) :
    ((integrateSource source t0 y0 target).runFrom p).2.1.renewed = p.1.renewed := by
  have refused {x : Except (Error α) Unit} {e : Error α} :
      ((do x; throw e : Effect (Engine ω α × ω) α (α × State α)).runFrom p).2.1.renewed = p.1.renewed := by
    cases x <;> rfl
  cases source with
  | equation equation => exact renewed_integrate equation t0 y0 target p
  | rate f label => exact refused
  | other kind => exact refused

/-- Runs leave an engine that was made in the same way. -/
theorem renewed_after (calls : List (Call ω α)) (p : Engine ω α × ω) : (after calls p).1.renewed = p.1.renewed := by
  induction calls generalizing p with
  | nil => rfl
  | cons call rest ih => exact (ih _).trans (renewed_integrateSource call.source call.t0 call.y0 call.target p)

variable {W : ω → ω → Prop} {e : Engine ω α} {w w' : ω}

omit [Spacing α] in
theorem twins_start (handlers : ∀ watch ∈ e.watches, watch.1.Respects W) (observers : ∀ o ∈ e.observers, o.Respects W)
    (related : W w w') :
    (Session.start w (Monitor.create e.watches) e.observers).Twins W True (List.Forall₂ (Observer.Akin W))
      (Session.start w' (Monitor.create e.renewed.watches) e.renewed.observers) := by
  refine ⟨⟨related, fun _ => rfl, rfl⟩, rfl, fun c mem => ?_, ?_, rfl, rfl⟩
  · obtain ⟨watch, listed, rfl⟩ := List.mem_map.mp mem
    exact handlers watch listed
  · exact List.forall₂_map_right_iff.mpr
      (List.forall₂_same.mpr fun o mem => ⟨Observer.renewed_renewed, observers o mem⟩)

/-- A run does the same as that of the engine which has not carried out a run. -/
theorem integrate_renewed {equation : Equation ω α} (rate : equation.toRate.Respects W)
    (handlers : ∀ watch ∈ e.watches, watch.1.Respects W) (observers : ∀ o ∈ e.observers, o.Respects W)
    (related : W w w') (t0 : α) (y0 : State α) (target : α) :
    let run := (integrate equation t0 y0 target).runFrom (e, w)
    let fresh := (integrate equation t0 y0 target).runFrom (e.renewed, w')
    run.1 = fresh.1 ∧
      ((e.renewed.prepare equation t0 y0 target).isOk = true →
        run.2.1.status = fresh.2.1.status ∧ run.2.1.evaluations = fresh.2.1.evaluations ∧
          run.2.1.accepted = fresh.2.1.accepted ∧ run.2.1.journal = fresh.2.1.journal) ∧
      (run.1.isOk = true → run.2.1.observers = fresh.2.1.observers) ∧ W run.2.2 fresh.2.2 := by
  have alike : e.renewed.prepare equation t0 y0 target = e.prepare equation t0 y0 target := rfl
  rw [integrate_eq_conduct]
  cases prepared : e.prepare equation t0 y0 target with
  | error refused =>
    rw [conduct_refused prepared, conduct_refused (alike.trans prepared), alike.trans prepared]
    exact ⟨rfl, nofun, nofun, related⟩
  | ok course =>
    rw [conduct_prepared prepared, conduct_prepared (alike.trans prepared), alike.trans prepared]
    obtain ⟨same, twins, observed⟩ :=
      course.twins_run (equation_of_prepare prepared ▸ rate) t0 y0 (twins_start handlers observers related)
    refine ⟨same.symm, fun _ => ⟨?_, ?_, ?_, ?_⟩, fun returned => (observed returned).symm, twins.tally.world⟩
    · simp only [told, same]
    · exact (twins.tally.evaluations trivial).symm
    · exact twins.accepted.symm
    · exact congrArg List.reverse twins.entries.symm

/-- Runs do not leak into each other. Whatever runs an engine has carried out, with any systems, times and directions,
and however they have ended, its next run has the same outcome as that of an engine made with the same settings,
handlers and observers that has not carried out a run. If the run is not refused, it has the same account, and if it
returns, it leaves the same observers. The calls of the right-hand side, the handlers and the observers may write to a
log, and then write the same in both runs. -/
theorem integrate_after {e : Engine (List ι) α} {equation : Equation (List ι) α} (rate : equation.toRate.Logs)
    (handlers : ∀ watch ∈ e.watches, watch.1.Logs) (observers : ∀ o ∈ e.observers, o.Logs)
    (calls : List (Call (List ι) α)) (t0 : α) (y0 : State α) (target : α) (w w₀ : List ι) :
    let used := after calls (e, w)
    let run := (integrate equation t0 y0 target).runFrom used
    let fresh := (integrate equation t0 y0 target).runFrom (e.renewed, w₀)
    run.1 = fresh.1 ∧
      ((e.renewed.prepare equation t0 y0 target).isOk = true →
        run.2.1.status = fresh.2.1.status ∧ run.2.1.evaluations = fresh.2.1.evaluations ∧
          run.2.1.accepted = fresh.2.1.accepted ∧ run.2.1.journal = fresh.2.1.journal) ∧
      (run.1.isOk = true → run.2.1.observers = fresh.2.1.observers) ∧
      ∃ written, run.2.2 = written ++ used.2 ∧ fresh.2.2 = written ++ w₀ := by
  intro used
  have made : used.1.renewed = e.renewed := renewed_after calls (e, w)
  have watched : used.1.watches = e.watches := (congrArg watches made :)
  have seen : used.1.observers.map Observer.renewed = e.observers.map Observer.renewed := (congrArg Engine.observers made :)
  rw [← made]
  refine integrate_renewed (rate.respects used.2 w₀) (fun watch mem => ?_) (fun o mem => ?_) ⟨[], rfl, rfl⟩ t0 y0 target
  · exact (handlers watch (watched ▸ mem)).respects used.2 w₀
  · have listed : o.renewed ∈ e.observers.map Observer.renewed := seen ▸ List.mem_map_of_mem mem
    obtain ⟨o', known, same⟩ := List.mem_map.mp listed
    rw [← Observer.respects_renewed, ← same, Observer.respects_renewed]
    exact (observers o' known).respects used.2 w₀

end Engine

theorem Effect.Steady.logs {x : Effect (List ι) α β} (steady : x.Steady) : x.Logs := by
  obtain ⟨r, always⟩ := steady
  exact ⟨r, [], always⟩

/-- One unknown that grows at a steady rate, for callers with a log of times. -/
def Equation.drift : Equation (List Rat) Rat where
  eval _ _ := pure (.ofList [1])
  onCompile := pure ()
  compiled _ _ := .ok (.ofList [1])
  dimension := 1
  label := "drift"

/-- An engine with a timer, and with observers that hear of a grid and of times in falling order. -/
def Engine.logging : Engine (List Rat) Rat where
  stepper := ⟨.euler, false⟩
  stepSize := 1 / 2
  maxSteps := 100
  watches := [((SwitchingFunction.timer (1 / 3) .carryOn (.ofList [0])).toHandler, ⟨none, 1 / 100, 100, none⟩)]
  observers := [.recorder .empty, .normalizer ⟨1 / 4, fun t _ _ => modify (t :: ·), 0, 0, 1 / 4, none⟩,
    .sampler (.create [3 / 4, 1 / 4])]
  status := none
  evaluations := 0
  accepted := 0
  journal := []

/-- A run to a later time fails in the middle of its second step, as the sampler wants times in falling order. The run
back that follows is the same as without it. -/
theorem Engine.logging_after :
    letI := Spacing.gapless
    let used := after [⟨.equation .drift, 0, .ofList [0], 1⟩] (logging, [])
    let run := (integrate .drift 1 (.ofList [1]) 0).runFrom used
    let fresh := (integrate .drift 1 (.ofList [1]) 0).runFrom (logging, [])
    used.1.status = some .failed ∧ used.2 ≠ [] ∧ run.1 = .ok (0, .ofList [0]) ∧ fresh.1 = run.1 ∧
      run.2.1.journal = fresh.2.1.journal ∧ run.2.1.observers = fresh.2.1.observers ∧
      run.2.2 = fresh.2.2 ++ used.2 := by
  let := Spacing.gapless
  intro used run fresh
  have rate : Equation.drift.toRate.Logs := ⟨fun _ _ => (steady_pure _).logs, (steady_pure _).logs⟩
  have handlers : ∀ watch ∈ logging.watches, watch.1.Logs := by
    intro watch mem
    rw [List.mem_singleton.mp mem]
    exact ⟨fun _ _ _ => (steady_pure _).logs, fun _ _ => (steady_pure _).logs, fun _ _ _ => (steady_pure _).logs,
      fun _ _ => (steady_pure _).logs⟩
  have observers : ∀ o ∈ logging.observers, o.Logs := by
    intro o mem
    simp only [logging, List.mem_cons, List.not_mem_nil, or_false] at mem
    rcases mem with rfl | rfl | rfl
    · trivial
    · exact fun t _ _ => ⟨.ok (), [t], fun _ => rfl⟩
    · trivial
  have made : logging.renewed = logging := by
    have created : Normalizer.create (1 / 4) (fun t _ _ => modify (t :: ·)) = .ok
        (⟨1 / 4, fun t _ _ => modify (t :: ·), 0, 0, 1 / 4, none⟩ : Normalizer (List Rat) Rat) := by
      norm_num [Normalizer.create]
    simp only [renewed, logging, List.map_cons, List.map_nil, Observer.renewed_normalizer created]
    rfl
  obtain ⟨same, account, observed, written, later, first⟩ :=
    integrate_after rate handlers observers [⟨.equation .drift, 0, .ofList [0], 1⟩] 1 (.ofList [1]) 0 [] []
  rw [made] at same account observed first
  have returned : run.1 = .ok (0, .ofList [0]) := by decide +kernel
  have accepted : (logging.prepare .drift 1 (.ofList [1]) 0).isOk = true := by decide +kernel
  refine ⟨by decide +kernel, by decide +kernel, returned, same.symm, (account accepted).2.2.2, ?_, ?_⟩
  · exact observed (returned ▸ rfl)
  · rw [show run.2.2 = written ++ used.2 from later, show fresh.2.2 = written ++ [] from first, List.append_nil]

end Trajectory
