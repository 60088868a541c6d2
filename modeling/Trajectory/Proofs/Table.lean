import Mathlib.Tactic
import Trajectory.Proofs.Genuine
import Trajectory.Proofs.Passes
import Trajectory.Proofs.Retrigger

/-!
What a monitor knows whenever it scans a window.

The channels of a run are opened once, acknowledged one by one as their handlers are told of events, and committed
together to a new start of scanning; the windows, and the states that handlers supply, change apart from them.
`Channel.Current` says that a channel is in step with both, and with the events that its handler has been told of.

That a reference point stands at the start of the window is part of the route of a run (`Stage.OnRoute`), and that a
channel remembers the last of its events, and is armed only behind its re-trigger window, is its rest (`Stage.Rests`).
What is left is that it is disarmed only inside that window (`Stage.Rearmed`). An acknowledgement need not keep this,
but no window is scanned behind one before a commit, which establishes it anew.

Every pass of a run scans one window, unless its step fails (`Course.Arrives.scans`), so these are all the scans.
-/

namespace Trajectory

open Session

variable {ω : Type} {t t0 : Rat} {y y0 : State Rat}

namespace Monitor

/-- Every disarmed channel has a time in the re-trigger window of its last event. -/
def Rearmed (t : Rat) (m : Monitor ω Rat) : Prop :=
  ∀ c ∈ m.channels, c.armed = false → c.inWindow t = true

variable {m m' : Monitor ω Rat} {v v' : ω}

theorem rearmed_init {target : Rat} (ran : (init t y target).runFrom (m, v) = (.ok (), m', v')) : m'.Rearmed t := by
  intro c mem disarmed
  obtain ⟨i, at_⟩ := List.getElem?_of_mem mem
  obtain ⟨_, _, opened⟩ := forall₂_getElem? (init_ok ran).2 at_
  rw [opened.armed] at disarmed
  cases disarmed

/-- Whatever was acknowledged before it, a commit leaves no channel disarmed outside its window. -/
theorem rearmed_commit (ran : (commit t y).runFrom (m, v) = (.ok (), m', v')) : m'.Rearmed t := by
  intro c' mem disarmed
  obtain ⟨i, at_⟩ := List.getElem?_of_mem mem
  obtain ⟨c, _, committed⟩ := forall₂_getElem? (commit_ok ran).2 at_
  rw [committed.armed, Bool.or_eq_false_iff, Bool.not_eq_false'] at disarmed
  rw [committed.inWindow_eq]
  exact disarmed.2

end Monitor

/-- Before a step, and before a window is scanned, disarmed channels have the start in their re-trigger windows. -/
def Stage.Rearmed (m : Monitor ω Rat) : Stage ω → Prop
  | stepping t _ _ => m.Rearmed t
  | scanning _ window => m.Rearmed window.start
  | _ => True

/-- A channel that is in step with a window that is about to be scanned, and with the events that its handler has been
told of. -/
structure Channel.Current (forward : Bool) (watch : Handler ω Rat × Settings Rat) (window : Window Rat)
    (times : List Rat) (c : Channel ω Rat) : Prop where
  handler : c.handler = watch.1
  settings : c.settings = watch.2
  /-- The reference point is the start of the window. -/
  tRef : c.tRef = window.start
  /-- The value at the reference point is the one that the switching function returns at the start of the window. -/
  gRef : ∀ value, (watch.1.g window.start window.yStart).Returns value ↔ value = c.gRef
  /-- The last event is the latest one that the handler has been told of. -/
  lastEvent : c.lastEvent = times.getLast?
  /-- The last event does not lie ahead of the reference point. -/
  passed : ∀ last ∈ c.lastEvent, NotAfter forward last c.tRef
  /-- The channel is disarmed just as long as the reference point is in the re-trigger window. -/
  disarmed : c.armed = false ↔ ∃ last ∈ c.lastEvent, |c.tRef - last| ≤ watch.2.window

/-- What a channel keeps, remembers and is armed for together puts it in step with a window. -/
theorem Channel.current {forward : Bool} {times : List Rat} {c : Channel ω Rat} {window : Window Rat}
    {watch : Handler ω Rat × Settings Rat} (settled : watch.1.IsPure)
    (keeps : c.Keeps window.start window.yStart watch) (rested : c.Rested forward watch.2.window times window.start)
    (rearmed : c.armed = false → c.inWindow window.start = true) : c.Current forward watch window times := by
  refine ⟨keeps.handler, keeps.settings, keeps.tRef, fun value => ⟨fun returned => ?_, fun same => ?_⟩,
    rested.lastEvent, ?_, fun disarmed => ?_, fun near => ?_⟩
  · exact settled _ _ _ _ keeps.gRef returned
  · rw [same]
    exact keeps.gRef
  · rw [rested.lastEvent, keeps.tRef]
    exact rested.passed
  · rw [keeps.tRef, ← rested.window]
    exact inWindow_iff.mp (rearmed disarmed)
  · obtain ⟨last, mem, near⟩ := near
    rw [rested.lastEvent] at mem
    rw [keeps.tRef] at near
    by_contra armed
    exact near.not_gt (rested.armed (Bool.eq_true_of_not_eq_false armed) last mem)

section

variable [Spacing Rat] {course : Course ω Rat} {watches : List (Handler ω Rat × Settings Rat)}
  {s₀ s s' : Session ω Rat} {p q : Stage ω} {phase : Phase Rat} {leg : Leg Rat} {window : Window Rat}

theorem rearmed_move (move : Move course (p, s) (q, s')) (rearmed : p.Rearmed s.monitor) : q.Rearmed s'.monitor := by
  cases move with
  | «open» derivative fits watched observed =>
    obtain ⟨m, _, initialized, rfl⟩ := onMonitor_ok.mp watched
    obtain ⟨_, _, _, rfl⟩ := onObservers_ok.mp observed
    exact Monitor.rearmed_init initialized
  | step taken =>
    obtain ⟨_, start, _, _, monitor⟩ := Course.nextLeg_ok taken
    rw [Stage.Rearmed, Window.ofStep, start, monitor]
    exact rearmed
  -- An acknowledgement disarms, but only a commit leads from it back to a stage with something to keep.
  | @answer cut o handler rest verdict action _ _ _ answered acknowledged => cases action <;> trivial
  | @refresh t y atEnd _ _ committed =>
    obtain ⟨_, _, moved, rfl⟩ := onMonitor_ok.mp committed
    cases atEnd with
    | true => trivial
    | false => exact Monitor.rearmed_commit moved
  | resume committed resumed =>
    obtain ⟨_, _, moved, rfl⟩ := onMonitor_ok.mp committed
    have rearmed := Monitor.rearmed_commit moved
    cases resumed with
    | ended whole last => trivial
    | stepping whole more => exact rearmed
    | scanning inner narrowed =>
      obtain ⟨_, start, _, _, _⟩ := Window.restrict_ok narrowed
      rw [Stage.Rearmed, start]
      exact rearmed
  | _ => trivial

theorem rearmed_moves (path : Moves course (.opening t0 y0, s) (q, s')) : q.Rearmed s'.monitor :=
  path.preserve (P := fun p u => p.Rearmed u.monitor) trivial fun _ _ _ _ rearmed move => rearmed_move move rearmed

/-- Every handler has a channel, and all channels are in step with a window that is about to be scanned. -/
structure Session.InStep (watches : List (Handler ω Rat × Settings Rat)) (forward : Bool) (window : Window Rat)
    (s : Session ω Rat) : Prop where
  size : s.monitor.channels.length = watches.length
  current : ∀ index watch, watches[index]? = some watch →
    ∃ c : Channel ω Rat, s.monitor.channels[index]? = some c ∧
      c.Current forward watch window (s.journal.eventTimes index)

/-- Wherever a path of moves leads to a scan, pure handlers have their channels in step with it. -/
theorem Moves.inStep (directed : course.Directed watches t0) (settled : ∀ watch ∈ watches, watch.1.IsPure)
    (path : Moves course (.opening t0 y0, s₀) (.scanning leg window, s))
    (created : s₀.monitor = Monitor.create watches) (empty : s₀.journal = []) :
    s.InStep watches course.forward window := by
  have rearmed : s.monitor.Rearmed window.start := rearmed_moves path
  obtain ⟨_, kept⟩ := onRoute_moves directed path ⟨rfl, congrArg Monitor.channels created⟩
  refine ⟨kept.channels.length_eq.symm, fun index watch registered => ?_⟩
  obtain ⟨_, rests, _⟩ := rests_moves directed registered path created empty
  obtain ⟨c, at_, keeps⟩ := forall₂_getElem? kept.channels.flip registered
  exact ⟨c, at_, Channel.current (settled watch (List.mem_of_getElem? registered)) keeps (rests c at_)
    (rearmed c (List.mem_of_getElem? at_))⟩

namespace Course

theorem Arrives.moves (arrives : course.Arrives t0 y0 s₀ phase s) :
    Moves course (.opening t0 y0, s₀) (phase.stage, s) := by
  induction arrives with
  | first begun => exact begin_follows.1 _ _ begun
  | next _ passed ih => exact ih.trans (pass_follows.1 _ _ passed)

theorem Scans.moves (scans : course.Scans t0 y0 s₀ leg window s) :
    Moves course (.opening t0 y0, s₀) (.scanning leg window, s) := by
  cases scans with
  | fresh arrives taken => exact arrives.moves.tail (.step taken)
  | left arrives => exact arrives.moves

/-- A pass fails on its way to the next step, or it scans a window and treats what it finds there. -/
theorem Arrives.scans (arrives : course.Arrives t0 y0 s₀ phase s) :
    (∃ t y yp e s', phase = .stepping t y yp ∧ (course.nextLeg t y yp).runFrom s = (.error e, s') ∧
        (course.pass phase).runFrom s = (.error e, s')) ∨
      ∃ leg window s', course.Scans t0 y0 s₀ leg window s' ∧
        (course.pass phase).runFrom s = (scan window >>= course.treat leg window).runFrom s' := by
  cases phase with
  | scanning leg window => exact Or.inr ⟨leg, window, s, .left arrives, by rw [pass_scanning]⟩
  | stepping t y yp =>
    rw [pass_stepping, Effect.runFrom_bind]
    rcases taken : (course.nextLeg t y yp).runFrom s with ⟨e | leg, s'⟩
    · exact Or.inl ⟨t, y, yp, e, s', rfl, taken, rfl⟩
    · exact Or.inr ⟨leg, .ofStep leg.step, s', .fresh arrives taken, rfl⟩

end Course

namespace Engine

variable {e : Engine ω Rat} {equation : Equation ω Rat} {target : Rat} {w : ω}

/-- Whenever a run of an engine with pure handlers is about to scan a window, its channels are in step. -/
theorem integrate_table (usable : e.Usable) (settled : ∀ watch ∈ e.watches, watch.1.IsPure)
    (prepared : e.prepare equation t0 y0 target = .ok course)
    (scans : course.Scans t0 y0 (Session.start w (Monitor.create e.watches) e.observers) leg window s) :
    s.InStep e.watches (decide (t0 < target)) window := by
  obtain ⟨directed, _, _, _, _, forward_eq⟩ := prepare_ok usable prepared
  rw [← forward_eq]
  exact scans.moves.inStep directed settled rfl rfl

end Engine

end

/-- Behind the event of a timer, whose handler lets the run go on, the rest of the step is scanned with a disarmed
channel. -/
theorem Engine.timer_table :
    letI := Spacing.gapless
    let e := Engine.timed (1 / 2) [(.timer (1 / 4) .carryOn (.ofList [0]), ⟨none, 1 / 1000, 100, some (1 / 8)⟩)]
    ∃ course leg window s, e.prepare .steady 0 (.ofList [0]) 1 = .ok course ∧
      course.Scans 0 (.ofList [0]) (Session.start () (Monitor.create e.watches) e.observers) leg window s ∧
      window.start = 1 / 4 ∧ ∃ c, s.monitor.channels[0]? = some c ∧ c.lastEvent = some (1 / 4) ∧ c.armed = false := by
  let := Spacing.gapless
  intro e
  have usable : e.Usable := usable_timed (by decide +kernel) (by decide +kernel)
  have settled : ∀ watch ∈ e.watches, watch.1.IsPure := by
    intro watch mem
    rw [List.mem_singleton.mp mem]
    exact SwitchingFunction.isPure_toHandler fun _ _ => rfl
  let course : Course Unit Rat := ⟨.steady, ⟨.euler, false⟩, 1 / 2, 1, true, 100⟩
  have prepared : e.prepare .steady 0 (.ofList [0]) 1 = .ok course := by
    have sized : Equation.steady.requireSize .state (.ofList [0] : State Rat) = .ok () := by decide +kernel
    have signed : e.signedStep true = .ok (1 / 2) := by decide +kernel
    have apart : ¬ Scalar.abs (1 - 0 : Rat) ≤ 1e-12 * Scalar.larger (Scalar.abs 0) (Scalar.abs 1) := by decide +kernel
    have forward : decide ((0 : Rat) < 1) = true := by decide +kernel
    simp only [prepare, sized, if_neg apart, forward, signed]
    rfl
  let start := Session.start () (Monitor.create e.watches) e.observers
  let opened := ((course.begin 0 (.ofList [0])).runFrom start).2
  have begun : (course.begin 0 (.ofList [0])).runFrom start = (.ok (.ofList [1]), opened) :=
    Prod.ext (by decide +kernel) rfl
  let step : Step Rat := ⟨0, .ofList [0], 1 / 2, .ofList [1 / 2], .ofList [1], .ofList [1]⟩
  let window : Window Rat := ⟨step, 1 / 4, 1 / 2, .ofList [1 / 4], .ofList [1 / 2]⟩
  let first : Phase Rat := .stepping 0 (.ofList [0]) (some (.ofList [1]))
  let behind := ((course.pass first).runFrom opened).2
  have passed : (course.pass first).runFrom opened = (.ok (.onward (.scanning ⟨step, false⟩ window)), behind) :=
    Prod.ext (by decide +kernel) rfl
  have scans : course.Scans 0 (.ofList [0]) start ⟨step, false⟩ window behind := .left (.next (.first begun) passed)
  obtain ⟨c, at_, current⟩ := (integrate_table usable settled prepared scans).current 0 _ rfl
  have told : behind.journal.eventTimes 0 = [1 / 4] := by decide +kernel
  have last : c.lastEvent = some (1 / 4) := by
    rw [current.lastEvent, told]
    rfl
  have near : |c.tRef - 1 / 4| ≤ 1 / 8 := by
    rw [current.tRef]
    decide +kernel
  exact ⟨course, _, window, behind, prepared, scans, rfl, c, at_, last, current.disarmed.mpr ⟨1 / 4, last, near⟩⟩

end Trajectory
