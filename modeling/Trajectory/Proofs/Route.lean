import Mathlib.Tactic
import Trajectory.Proofs.Stage

/-!
Times and channels along a run.

`Stage.OnRoute` says, for every stage, where the run is: behind the initial time and before the
target, inside the step and the window that are being worked on, with every reference point at the
start of the window. Every move keeps it (`onRoute_move`), so it holds at every stage of a run.
Strict progress comes from the search: what it locates lies strictly behind the reference point and
not behind the end of the window.
-/

namespace Trajectory

variable {ω : Type}

/-- A course along which the step size points to the target, with valid settings for every
handler. -/
structure Course.Directed (course : Course ω Rat) (watches : List (Handler ω Rat × Settings Rat)) (t0 : Rat) :
    Prop where
  /-- The target lies ahead. -/
  ahead : Precedes course.forward t0 course.target
  /-- Steps lead along the run. -/
  size : 0 < runSign course.forward * course.h
  /-- The settings of the handlers are valid. -/
  valid : ∀ watch ∈ watches, watch.2.valid = true

theorem Course.Directed.forward_eq {course : Course ω Rat} {watches : List (Handler ω Rat × Settings Rat)} {t0 : Rat}
    (directed : course.Directed watches t0) : decide (t0 ≤ course.target) = course.forward := by
  have ahead := directed.ahead
  cases forward : course.forward with
  | true =>
    rw [forward] at ahead
    exact decide_eq_true (le_of_lt ahead)
  | false =>
    rw [forward] at ahead
    exact decide_eq_false (not_le_of_gt ahead)

/-- A channel whose reference point is at a time with a state. -/
structure Channel.Keeps (t : Rat) (y : State Rat) (watch : Handler ω Rat × Settings Rat) (c : Channel ω Rat) :
    Prop where
  handler : c.handler = watch.1
  settings : c.settings = watch.2
  tRef : c.tRef = t
  gRef : (watch.1.g t y).Returns c.gRef

/-- Every handler has its channel, and all reference points are at a time with a state. -/
structure Monitor.Keeps (watches : List (Handler ω Rat × Settings Rat)) (forward : Bool) (t : Rat) (y : State Rat)
    (m : Monitor ω Rat) : Prop where
  forward_eq : m.forward = forward
  channels : List.Forall₂ (Channel.Keeps t y) watches m.channels

/-- A window on what is left of a step. The step leads to the target if it is the last one, and to a
time before it otherwise. -/
structure Leg.Covers [Spacing Rat] (course : Course ω Rat) (t0 : Rat) (leg : Leg Rat) (window : Window Rat) : Prop where
  step : window.step = leg.step
  begun : NotAfter course.forward t0 window.start
  ahead : Precedes course.forward window.start window.stop
  stop : window.stop = leg.step.tNext
  last : leg.last = true → leg.step.tNext = course.target
  more : leg.last = false → Precedes course.forward leg.step.tNext course.target

/-- A piece at the start of what is left of a step. -/
structure Cut.Fits [Spacing Rat] (course : Course ω Rat) (t0 : Rat) (cut : Cut) : Prop where
  covers : cut.leg.Covers course t0 cut.window
  start : cut.piece.start = cut.window.start
  yStart : cut.piece.yStart = cut.window.yStart
  yStop : ∀ y, cut.window.stateAt cut.piece.stop = .ok y → y = cut.piece.yStop
  ahead : Precedes course.forward cut.piece.start cut.piece.stop
  reached : NotAfter course.forward cut.piece.stop cut.window.stop

/-- A member of the group of an event at a time, with a root that the search of its channel has
reported from the start of a window. -/
structure Occurrence.Reported [Spacing Rat] (watches : List (Handler ω Rat × Settings Rat)) (forward : Bool)
    (window : Window Rat) (t : Rat) (o : Occurrence Rat) : Prop where
  time : o.t = t
  reached : NotAfter forward o.root t
  searched : ∃ watch c, watches[o.index]? = some watch ∧ Channel.Keeps window.start window.yStart watch c ∧
    (c.firstRoot forward window).Returns (some ⟨o.root, o.increasing⟩)

/-- The handler that is to supply a state is a registered one. -/
def Verdict.Backed (watches : List (Handler ω Rat × Settings Rat)) : Verdict ω Rat → Prop
  | .replace index handler => ∃ settings, watches[index]? = some (handler, settings)
  | _ => True

/-- Where a run is at a stage, with the reference points of its channels. -/
def Stage.OnRoute [Spacing Rat] (course : Course ω Rat) (watches : List (Handler ω Rat × Settings Rat)) (t0 : Rat)
    (m : Monitor ω Rat) : Stage ω → Prop
  | opening t _ => t = t0 ∧ m.channels = (Monitor.create watches).channels
  | stepping t y _ => NotAfter course.forward t0 t ∧ Precedes course.forward t course.target ∧
      m.Keeps watches course.forward t y
  | scanning leg window => leg.Covers course t0 window ∧ m.Keeps watches course.forward window.start window.yStart
  | located leg window first rest => leg.Covers course t0 window ∧
      m.Keeps watches course.forward window.start window.yStart ∧
      NotAfter course.forward first.t window.stop ∧
      ∀ o ∈ first :: rest, o.Reported watches course.forward window first.t
  | asking cut rest verdict => cut.Fits course t0 ∧ verdict.Backed watches ∧
      m.Keeps watches course.forward cut.window.start cut.window.yStart ∧
      ∀ o ∈ rest, o.Reported watches course.forward cut.window cut.piece.stop
  | awaiting cut o handler rest verdict => cut.Fits course t0 ∧ verdict.Backed watches ∧
      (∃ settings, watches[o.index]? = some (handler, settings)) ∧
      m.Keeps watches course.forward cut.window.start cut.window.yStart ∧
      ∀ o ∈ rest, o.Reported watches course.forward cut.window cut.piece.stop
  | decided cut _ verdict => cut.Fits course t0 ∧ verdict.Backed watches ∧
      m.Keeps watches course.forward cut.window.start cut.window.yStart
  | accepted cut _ verdict => cut.Fits course t0 ∧ verdict.Backed watches ∧
      m.Keeps watches course.forward cut.window.start cut.window.yStart
  | told cut verdict => cut.Fits course t0 ∧ verdict.Backed watches ∧
      m.Keeps watches course.forward cut.window.start cut.window.yStart
  | restarting t _ atEnd => NotAfter course.forward t0 t ∧
      (if atEnd then t = course.target else Precedes course.forward t course.target) ∧
      ∃ s z, m.Keeps watches course.forward s z
  | ended _ _ => True

namespace Monitor

variable {watches : List (Handler ω Rat × Settings Rat)} {forward : Bool} {t : Rat} {y : State Rat}
  {m m' : Monitor ω Rat} {v v' : ω}

theorem Keeps.channel (kept : m.Keeps watches forward t y) {index : Nat} {c : Channel ω Rat}
    (at_ : m.channels[index]? = some c) :
    ∃ watch, watches[index]? = some watch ∧ watch ∈ watches ∧ Channel.Keeps t y watch c := by
  obtain ⟨watch, registered, keeps⟩ := forall₂_getElem? kept.channels at_
  exact ⟨watch, registered, List.mem_of_getElem? registered, keeps⟩

theorem Keeps.tolerance_eq (kept : m.Keeps watches forward t y) {index : Nat} {c : Channel ω Rat}
    (at_ : m.channels[index]? = some c) :
    ∃ watch, watches[index]? = some watch ∧ m.tolerance index = watch.2.convergence := by
  obtain ⟨watch, registered, _, keeps⟩ := kept.channel at_
  exact ⟨watch, registered, by simp only [tolerance, at_, keeps.settings]⟩

theorem keeps_init {target : Rat} (created : m.channels = (create watches).channels)
    (ran : (init t y target).runFrom (m, v) = (.ok (), m', v')) :
    m'.Keeps watches (decide (t ≤ target)) t y := by
  obtain ⟨direction, opened⟩ := init_ok ran
  refine ⟨direction, ?_⟩
  rw [created, create, List.forall₂_map_left_iff] at opened
  exact opened.imp fun watch c h => ⟨h.handler, h.settings, h.tRef, h.gRef⟩

theorem Keeps.commit {t' : Rat} {y' : State Rat} (kept : m.Keeps watches forward t y)
    (ran : (commit t' y').runFrom (m, v) = (.ok (), m', v')) : m'.Keeps watches forward t' y' := by
  obtain ⟨direction, committed⟩ := commit_ok ran
  refine ⟨direction.trans kept.forward_eq, forall₂_meet kept.channels.flip committed ?_⟩
  intro c watch c' before after
  refine ⟨after.handler.trans before.handler, after.settings.trans before.settings, after.tRef, ?_⟩
  rw [← before.handler]
  exact after.gRef

theorem Keeps.acknowledge {index : Nat} {event : Rat} (kept : m.Keeps watches forward t y)
    (ran : (acknowledge index event).runFrom (m, v) = (.ok (), m', v')) : m'.Keeps watches forward t y := by
  obtain ⟨c, at_, _, rfl⟩ := acknowledge_ok ran
  refine ⟨kept.forward_eq, List.forall₂_iff_get.mpr ⟨?_, fun i left right => ?_⟩⟩
  · rw [List.length_set]
    exact kept.channels.length_eq
  · have middle : i < m.channels.length := kept.channels.length_eq ▸ left
    have before := kept.channels.get left middle
    simp only [List.get_eq_getElem, List.getElem_set] at before ⊢
    by_cases same : index = i
    · subst same
      have entry := (List.getElem?_eq_some_iff.mp at_).2
      rw [if_pos rfl]
      rw [entry] at before
      exact ⟨before.handler, before.settings, before.tRef, before.gRef⟩
    · rwa [if_neg same]

theorem Keeps.congr (kept : m.Keeps watches forward t y) (channels : m'.channels = m.channels)
    (direction : m'.forward = m.forward) : m'.Keeps watches forward t y :=
  ⟨direction.trans kept.forward_eq, channels ▸ kept.channels⟩

end Monitor

section

variable [Spacing Rat] {course : Course ω Rat} {watches : List (Handler ω Rat × Settings Rat)} {t0 : Rat}
  {s s' : Session ω Rat} {window : Window Rat}

/-- Scanning a window leaves the channels alone and finds a group of first roots. -/
theorem Course.scan_ok {group : List (Occurrence Rat)}
    (ran : (Course.scan window).runFrom s = (.ok group, s')) :
    s'.monitor.channels = s.monitor.channels ∧ s'.monitor.forward = s.monitor.forward ∧ ∃ found v v',
      (Monitor.candidates s.monitor.forward window 0 s.monitor.channels).runFrom v = (.ok found, v') ∧
      group = Monitor.group s.monitor.forward s.monitor.tolerance found := by
  unfold Course.scan at ran
  rw [Effect.runFrom_bind, Effect.runFrom_get] at ran
  by_cases unwatched : s.monitor.channels.isEmpty = true
  · simp only [unwatched, if_true, Effect.runFrom_pure] at ran
    cases ran
    rw [List.isEmpty_iff] at unwatched
    refine ⟨rfl, rfl, [], s.tally.world, s.tally.world, ?_, rfl⟩
    rw [unwatched, Monitor.candidates, Effect.runFrom_pure]
  · simp only [unwatched] at ran
    obtain ⟨m, w, scanned, rfl⟩ := Session.onMonitor_ok.mp ran
    obtain ⟨channels, direction, found, searched, grouped⟩ := Monitor.scan_ok scanned
    exact ⟨channels, direction, found, _, _, searched, grouped⟩

omit [Spacing Rat] in
/-- A step leads from the given point over the given distance, which is not zero. -/
theorem Stepper.advance_ok {stepper : Stepper} {f : Rate ω Rat} {t h : Rat} {y : State Rat} {yp : Option (State Rat)}
    {step : Step Rat} {u u' : Tally ω} (ran : (stepper.advance f t y h yp).runFrom u = (.ok step, u')) :
    h ≠ 0 ∧ step.t = t ∧ step.y = y ∧ step.tNext = t + h := by
  rw [Stepper.advance, Effect.runFrom_bind_ok] at ran
  obtain ⟨size, _, lifted, ran⟩ := ran
  obtain ⟨checked, rfl⟩ := Effect.runFrom_lift_iff.mp lifted
  have usable : h ≠ 0 ∧ size = h := by
    simp only [checkStepSize, Scalar.isZero_rat, Scalar.isFinite_rat, Bool.not_true, Bool.or_false,
      decide_eq_true_eq] at checked
    split at checked
    · cases checked
    · rename_i nonzero
      cases checked
      exact ⟨nonzero, rfl⟩
  have last : ∀ start u₁, (do
      let yNext ← stepper.increment f t y size start
      let ypNext ← f.call (t + size) yNext
      return (⟨t, y, t + size, yNext, start, ypNext⟩ : Step Rat) : Effect (Tally ω) Rat (Step Rat)).runFrom u₁ =
        (.ok step, u') → step.t = t ∧ step.y = y ∧ step.tNext = t + size := by
    intro start u₁ rest
    obtain ⟨_, _, _, rest⟩ := Effect.runFrom_bind_ok.mp rest
    obtain ⟨_, _, _, rest⟩ := Effect.runFrom_bind_ok.mp rest
    rw [Effect.runFrom_pure] at rest
    cases rest
    exact ⟨rfl, rfl, rfl⟩
  obtain ⟨nonzero, rfl⟩ := usable
  refine ⟨nonzero, ?_⟩
  cases yp with
  | some start =>
    obtain ⟨_, _, _, ran⟩ := Effect.runFrom_bind_ok.mp ran
    exact last _ _ ran
  | none =>
    obtain ⟨_, _, _, ran⟩ := Effect.runFrom_bind_ok.mp ran
    exact last _ _ ran

omit [Spacing Rat] in
/-- The next step starts where the run is, and leads to the target or one step size further. -/
theorem Course.nextLeg_ok {t : Rat} {y : State Rat} {yp : Option (State Rat)} {leg : Leg Rat}
    (ran : (course.nextLeg t y yp).runFrom s = (.ok leg, s')) :
    leg.last = course.isLast t ∧ leg.step.t = t ∧ leg.step.y = y ∧
      leg.step.tNext = (if course.isLast t then course.target else t + course.h) ∧ s'.monitor = s.monitor := by
  rw [Course.nextLeg, Effect.runFrom_bind_ok] at ran
  obtain ⟨step, s₁, taken, ran⟩ := ran
  rw [Effect.runFrom_pure] at ran
  cases ran
  obtain ⟨tally, advanced, rfl⟩ := Session.onTally_ok.mp taken
  obtain ⟨_, start, y, stop⟩ := Stepper.advance_ok advanced
  cases last : course.isLast t with
  | true => exact ⟨rfl, start, y, rfl, rfl⟩
  | false =>
    rw [last, if_neg Bool.false_ne_true] at stop
    exact ⟨rfl, start, y, stop, rfl⟩

omit [Spacing Rat] in
theorem Course.precedes_of_not_last {t : Rat} (more : course.isLast t = false) :
    Precedes course.forward (t + course.h) course.target := by
  rw [Course.isLast, decide_eq_false_iff_not, not_le] at more
  have slack : (0 : Rat) ≤ lastStepSlack * Scalar.abs course.h := by
    rw [Scalar.abs_rat]
    exact mul_nonneg (by norm_num [lastStepSlack]) (abs_nonneg _)
  have way := slack.trans_lt more
  rw [precedes_iff_sign]
  linarith

theorem Leg.Covers.stop_notAfter {leg : Leg Rat} (covers : leg.Covers course t0 window) :
    NotAfter course.forward window.stop course.target := by
  rw [covers.stop]
  cases last : leg.last with
  | true =>
    rw [covers.last last]
    exact .refl
  | false => exact (covers.more last).notAfter

theorem Course.Directed.covers_ofStep (directed : course.Directed watches t0) {t : Rat} {y : State Rat}
    {yp : Option (State Rat)} {leg : Leg Rat} (begun : NotAfter course.forward t0 t)
    (ahead : Precedes course.forward t course.target) (ran : (course.nextLeg t y yp).runFrom s = (.ok leg, s')) :
    leg.Covers course t0 (.ofStep leg.step) := by
  obtain ⟨last, start, _, stop, _⟩ := Course.nextLeg_ok ran
  have size : Precedes course.forward t (t + course.h) := by
    rw [precedes_iff_sign]
    linarith [directed.size]
  have here : (Window.ofStep leg.step).start = t := start
  have there : (Window.ofStep leg.step).stop = leg.step.tNext := rfl
  cases isLast : course.isLast t with
  | true =>
    rw [isLast] at last
    rw [isLast, if_pos rfl] at stop
    refine ⟨rfl, ?_, ?_, rfl, fun _ => stop, fun more => by cases last.symm.trans more⟩
    · rwa [here]
    · rwa [here, there, stop]
  | false =>
    rw [isLast] at last
    rw [isLast, if_neg Bool.false_ne_true] at stop
    refine ⟨rfl, ?_, ?_, rfl, (fun more => by cases last.symm.trans more), fun _ => ?_⟩
    · rwa [here]
    · rwa [here, there, stop]
    · rw [stop]
      exact Course.precedes_of_not_last isLast

/-- A reported root lies in the window, strictly behind its start. -/
theorem Occurrence.Reported.inside {o : Occurrence Rat} {t : Rat} (directed : course.Directed watches t0)
    (reported : o.Reported watches course.forward window t) :
    Precedes course.forward window.start o.root ∧ NotAfter course.forward o.root window.stop := by
  obtain ⟨watch, c, at_, keeps, _, _, searched⟩ := reported.searched
  have valid : c.settings.valid = true := keeps.settings ▸ directed.valid watch (List.mem_of_getElem? at_)
  obtain ⟨_, tb, gb, reached, _, spans⟩ := Channel.firstRoot_some valid searched
  exact ⟨keeps.tRef ▸ spans.behind, spans.reached.trans reached⟩

/-- The members of a group that a scan finds are reported at the time of the event. -/
theorem Monitor.Keeps.reported {m : Monitor ω Rat} {group : List (Occurrence Rat)}
    (kept : m.Keeps watches course.forward window.start window.yStart) (found : m.Found window group)
    {first : Occurrence Rat} (leads : first ∈ group) :
    ∀ o ∈ group, o.Reported watches course.forward window first.t := by
  intro o mem
  obtain ⟨time, reached⟩ := found.shared first leads o mem
  obtain ⟨c, channel, searched⟩ := found.reported o mem
  obtain ⟨watch, at_, _, keeps⟩ := kept.channel channel
  rw [kept.forward_eq] at reached searched
  exact ⟨time, reached, watch, c, at_, keeps, searched⟩

theorem Monitor.Keeps.tolerance_pos {m : Monitor ω Rat} {t : Rat} {y : State Rat} {found : List (Candidate Rat)}
    {v v' : ω} (directed : course.Directed watches t0) (kept : m.Keeps watches course.forward t y)
    (searched : (Monitor.candidates m.forward window 0 m.channels).runFrom v = (.ok found, v')) :
    ∀ k ∈ found, 0 < m.tolerance k.index := by
  intro k mem
  obtain ⟨i, channel, same, at_, _⟩ := (Monitor.candidates_ok searched).2.1 k mem
  rw [Nat.zero_add] at same
  obtain ⟨watch, registered, tolerance⟩ := kept.tolerance_eq (same.symm ▸ at_)
  rw [tolerance]
  exact (Settings.valid_iff.mp (directed.valid watch (List.mem_of_getElem? registered))).2.1

/-- A group has a member with the earliest root, and the candidates whose roots are within the tolerance of that one are
its members. -/
theorem Monitor.Keeps.winner {m : Monitor ω Rat} {t : Rat} {y : State Rat} {found : List (Candidate Rat)} {v v' : ω}
    (directed : course.Directed watches t0) (kept : m.Keeps watches course.forward t y)
    (searched : (Monitor.candidates m.forward window 0 m.channels).runFrom v = (.ok found, v'))
    (nonempty : found ≠ []) :
    ∃ winner ∈ Monitor.group m.forward m.tolerance found, ∃ winnerWatch, watches[winner.index]? = some winnerWatch ∧
      (∀ o ∈ Monitor.group m.forward m.tolerance found, NotAfter course.forward winner.root o.root ∧
        |o.root - winner.root| ≤ winnerWatch.2.convergence) ∧
      ∀ k ∈ found, (∃ o ∈ Monitor.group m.forward m.tolerance found, o.index = k.index) ↔
        |k.found.root - winner.root| ≤ winnerWatch.2.convergence := by
  obtain ⟨order, reported, _⟩ := Monitor.candidates_ok searched
  obtain ⟨winner, member, ⟨k, candidate, same⟩, spread, isMember⟩ :=
    Monitor.group_winner m.forward nonempty order (kept.tolerance_pos directed searched)
  obtain ⟨i, channel, at_, channelAt, _⟩ := reported k candidate
  rw [Nat.zero_add] at at_
  obtain ⟨winnerWatch, winnerAt, tolerance⟩ := kept.tolerance_eq (at_.symm ▸ channelAt)
  rw [same] at winnerAt tolerance
  rw [tolerance] at spread isMember
  refine ⟨winner, member, winnerWatch, winnerAt, fun o mem => ?_, isMember⟩
  rw [← kept.forward_eq]
  exact spread o mem

/-- The time of an event does not lie behind the window. -/
theorem Monitor.Keeps.event_reached {m : Monitor ω Rat} {group : List (Occurrence Rat)}
    (directed : course.Directed watches t0)
    (kept : m.Keeps watches course.forward window.start window.yStart) (found : m.Found window group)
    {o : Occurrence Rat} (mem : o ∈ group) : NotAfter course.forward o.t window.stop := by
  obtain ⟨o', mem', same⟩ := found.attained o mem
  rw [same]
  exact ((kept.reported found mem o' mem').inside directed).2

theorem Cut.Fits.covers_rest {cut : Cut} {rest : Window Rat} (fits : cut.Fits course t0)
    (inner : cut.piece.stop ≠ cut.window.stop)
    (narrowed : cut.window.restrict cut.piece.stop cut.window.stop = .ok rest) : cut.leg.Covers course t0 rest := by
  obtain ⟨step, start, stop, _, _⟩ := Window.restrict_ok narrowed
  have covers := fits.covers
  refine ⟨step.trans covers.step, ?_, ?_, stop.trans covers.stop, covers.last, covers.more⟩
  · rw [start]
    exact (covers.begun.trans (fits.start ▸ fits.ahead.notAfter))
  · rw [start, stop]
    exact fits.reached.precedes_of_ne inner

theorem Cut.fits_truncate {leg : Leg Rat} {piece : Window Rat} {t : Rat} (covers : leg.Covers course t0 window)
    (ahead : Precedes course.forward window.start t) (reached : NotAfter course.forward t window.stop)
    (truncated : window.truncate t = .ok piece) : Cut.Fits course t0 ⟨leg, window, piece⟩ := by
  obtain ⟨_, start, stop, yStart, yStop⟩ := Window.truncate_ok truncated
  refine ⟨covers, start, yStart, fun y answered => ?_, ?_, ?_⟩
  · rw [stop, yStop] at answered
    cases answered
    rfl
  · rw [start, stop]
    exact ahead
  · rw [stop]
    exact reached

theorem Cut.fits_whole {leg : Leg Rat} (covers : leg.Covers course t0 window) :
    Cut.Fits course t0 ⟨leg, window, window⟩ :=
  ⟨covers, rfl, rfl, fun _ answered => Window.stateAt_stop covers.ahead.ne answered, covers.ahead, .refl⟩

theorem Cut.Fits.begun {cut : Cut} (fits : cut.Fits course t0) : NotAfter course.forward t0 cut.piece.stop := by
  have start := fits.covers.begun
  rw [← fits.start] at start
  exact start.trans fits.ahead.notAfter

/-- Behind a piece the run is at the target, or before it. -/
theorem Cut.Fits.atEnd {cut : Cut} (fits : cut.Fits course t0) :
    if cut.atEnd then cut.piece.stop = course.target else Precedes course.forward cut.piece.stop course.target := by
  have covers := fits.covers
  cases atEnd : cut.atEnd with
  | true =>
    rw [Cut.atEnd, Bool.and_eq_true, beq_iff_eq] at atEnd
    exact atEnd.2.trans (covers.last atEnd.1)
  | false =>
    rw [if_neg Bool.false_ne_true]
    rw [Cut.atEnd, Bool.and_eq_false_iff, beq_eq_false_iff_ne] at atEnd
    have reached := fits.reached
    rw [covers.stop] at reached
    cases last : cut.leg.last with
    | true =>
      have different := atEnd.resolve_left fun more => by cases last.symm.trans more
      exact covers.last last ▸ reached.precedes_of_ne different
    | false => exact reached.trans_precedes (covers.more last)

/-- Every move keeps the run on its route. -/
theorem onRoute_move (directed : course.Directed watches t0) {p q : Stage ω} (move : Move course (p, s) (q, s'))
    (before : p.OnRoute course watches t0 s.monitor) : q.OnRoute course watches t0 s'.monitor := by
  cases move with
  | «open» derivative fits watched observed =>
    obtain ⟨rfl, created⟩ := before
    obtain ⟨_, _, rfl⟩ := Session.onTally_ok.mp derivative
    obtain ⟨m, _, initialized, rfl⟩ := Session.onMonitor_ok.mp watched
    obtain ⟨_, _, _, rfl⟩ := Session.onObservers_ok.mp observed
    have kept := Monitor.keeps_init created initialized
    rw [directed.forward_eq] at kept
    exact ⟨.refl, directed.ahead, kept⟩
  | step taken =>
    obtain ⟨begun, ahead, kept⟩ := before
    obtain ⟨_, start, y, _, monitor⟩ := Course.nextLeg_ok taken
    refine ⟨directed.covers_ofStep begun ahead taken, ?_⟩
    rw [monitor, Window.ofStep, start, y]
    exact kept
  | clear scanned =>
    obtain ⟨covers, kept⟩ := before
    obtain ⟨channels, direction, _⟩ := Course.scan_ok scanned
    exact ⟨Cut.fits_whole covers, trivial, kept.congr channels direction⟩
  | locate scanned =>
    obtain ⟨covers, kept⟩ := before
    obtain ⟨channels, direction, found, _, _, searched, grouped⟩ := Course.scan_ok scanned
    have group := Monitor.found_of_candidates s.monitor.tolerance searched
    rw [← grouped] at group
    exact ⟨covers, kept.congr channels direction, kept.event_reached directed group List.mem_cons_self,
      kept.reported group List.mem_cons_self⟩
  | cut truncated =>
    obtain ⟨covers, kept, reached, reported⟩ := before
    have first := reported _ List.mem_cons_self
    have ahead := (first.inside directed).1.trans_notAfter first.reached
    obtain ⟨_, _, stop, _, _⟩ := Window.truncate_ok truncated
    refine ⟨Cut.fits_truncate covers ahead reached truncated, trivial, kept, ?_⟩
    rw [stop]
    exact reported
  | ask watched =>
    obtain ⟨fits, backed, kept, reported⟩ := before
    obtain ⟨watch, at_, _, keeps⟩ := kept.channel watched
    refine ⟨fits, backed, ⟨watch.2, ?_⟩, kept, fun o mem => reported o (List.mem_cons_of_mem _ mem)⟩
    rw [keeps.handler]
    exact at_
  | answer answered acknowledged =>
    rename_i action s₁
    obtain ⟨fits, backed, registered, kept, reported⟩ := before
    obtain ⟨_, _, rfl⟩ := Session.outside_ok.mp answered
    obtain ⟨m, _, marked, rfl⟩ := Session.onMonitor_ok.mp acknowledged
    have kept' := Monitor.Keeps.acknowledge kept marked
    cases action with
    | carryOn => exact ⟨fits, backed, kept', reported⟩
    | resetDerivatives => exact ⟨fits, trivial, kept', reported⟩
    | resetState => exact ⟨fits, registered, kept', fun _ mem => absurd mem List.not_mem_nil⟩
    | stop => exact ⟨fits, trivial, kept', fun _ mem => absurd mem List.not_mem_nil⟩
  | decide => exact ⟨before.1, before.2.1, before.2.2.1⟩
  | accept affordable => exact before
  | tell told =>
    obtain ⟨_, _, _, rfl⟩ := Session.onObservers_ok.mp told
    exact before
  | stop => trivial
  | replace reset fits =>
    obtain ⟨cut, _, kept⟩ := before
    obtain ⟨_, _, rfl⟩ := Session.outside_ok.mp reset
    exact ⟨cut.begun, cut.atEnd, _, _, kept⟩
  | restart =>
    obtain ⟨cut, _, kept⟩ := before
    exact ⟨cut.begun, cut.atEnd, _, _, kept⟩
  | refresh committed =>
    rename_i t y atEnd
    obtain ⟨begun, ahead, _, _, kept⟩ := before
    obtain ⟨_, _, moved, rfl⟩ := Session.onMonitor_ok.mp committed
    cases atEnd with
    | true => trivial
    | false => exact ⟨begun, ahead, kept.commit moved⟩
  | resume committed resumed =>
    obtain ⟨cut, _, kept⟩ := before
    obtain ⟨_, _, moved, rfl⟩ := Session.onMonitor_ok.mp committed
    have kept' := kept.commit moved
    cases resumed with
    | ended whole last => trivial
    | stepping whole more =>
      refine ⟨cut.begun, ?_, kept'⟩
      rw [whole, cut.covers.stop]
      exact cut.covers.more more
    | scanning inner narrowed =>
      obtain ⟨_, start, _, yStart, _⟩ := Window.restrict_ok narrowed
      refine ⟨cut.covers_rest inner narrowed, ?_⟩
      rw [start, cut.yStop _ yStart]
      exact kept'

end

end Trajectory
