import Mathlib.Tactic
import Trajectory.Proofs.Reaction
import Trajectory.Proofs.Timer

/-!
Time triggers in runs that no handler interrupts.

A trigger waits until its time is behind the reference points. As long as it waits, no located event
lies at its time or behind it (`Stage.Waits`, `waits_move`). The first group whose event does so
decides: the search of the trigger has reported a root in the same scan, and the trigger is told if
this root is within the tolerance of the earliest one, and never otherwise, since behind the event
the switching function has its final sign (`integrate_trigger`). `trigger_swallowed` is a run in
which a trigger is never told: its own tolerance puts its root behind the event, and the tolerance
of the earlier root does not reach as far.
-/

namespace Trajectory

open Session

variable {ω : Type}

/-- A handler whose switching function is the time since a given one, and that wants to hear of
every crossing. -/
structure Handler.IsTrigger (c : Rat) (handler : Handler ω Rat) : Prop where
  g : ∀ t y, handler.g t y = pure (t - c)
  direction : handler.direction = 0

/-- A handler that only ever lets the run go on. -/
def Handler.CarriesOn (handler : Handler ω Rat) : Prop :=
  ∀ t y increasing action, (handler.eventOccurred t y increasing).Returns action → action = .carryOn

/-- How often a handler has been told of an event. -/
def Journal.told (j : Journal Rat) (index : Nat) : Nat := j.notifications.countP fun n => n.1.index == index

/-- A channel of a trigger, from which no event has been reported, with its reference point at a
time. -/
def Channel.waiting (watch : Handler ω Rat × Settings Rat) (c t : Rat) : Channel ω Rat :=
  ⟨watch.1, watch.2, t, t - c, none, true⟩

section

variable {forward : Bool} {c t : Rat} {watch : Handler ω Rat × Settings Rat} {channel : Channel ω Rat} {y : State Rat}

/-- At a reference point of a trigger the switching function is the time since its own. -/
theorem Channel.Keeps.gRef_eq (trigger : watch.1.IsTrigger c) (keeps : channel.Keeps t y watch) :
    channel.gRef = t - c := by
  have returned := keeps.gRef
  rw [trigger.g] at returned
  exact Effect.eq_of_returns_pure returned

variable [Spacing Rat] {window : Window Rat}

/-- Along a window the switching function of a trigger is the time since its own. -/
theorem Channel.along_trigger {value : Rat} (trigger : watch.1.IsTrigger c) (keeps : channel.Keeps window.start y watch)
    (returned : (channel.along window t).Returns value) : value = t - c := by
  obtain ⟨w, w', ran⟩ := returned
  rw [along, Effect.runFrom_bind_ok] at ran
  obtain ⟨z, w₁, _, evaluated⟩ := ran
  rw [keeps.handler, trigger.g] at evaluated
  exact Effect.eq_of_returns_pure (Effect.returns_of_runFrom evaluated)

/-- A root that the search of a trigger reports is not before its time, and the search starts before
it. -/
theorem Channel.firstRoot_trigger {found : Crossing Rat} (trigger : watch.1.IsTrigger c)
    (keeps : channel.Keeps window.start y watch) (valid : watch.2.valid = true)
    (searched : (channel.firstRoot forward window).Returns (some found)) :
    Precedes forward window.start c ∧ NotAfter forward c found.root := by
  obtain ⟨w, w', ran⟩ := searched
  obtain ⟨_, tb, gb, _, sample, spans⟩ := firstRoot_some (keeps.settings ▸ valid) ran
  obtain ⟨x, gx, begun, before, start, nonzero, _, value, root, sign⟩ := spans.signs
  have atStart : gx = x - c := by
    rcases start with ⟨rfl, rfl⟩ | returned
    · rw [keeps.gRef_eq trigger, keeps.tRef]
    · exact along_trigger trigger keeps returned
  have atRoot : value = found.root - c := by
    rcases root with ⟨same, rfl⟩ | returned
    · rw [same]
      exact along_trigger trigger keeps sample
    · exact along_trigger trigger keeps returned
  rw [keeps.tRef] at begun
  subst atStart atRoot
  -- the switching function grows with time, so it changes its sign only at the time of the trigger
  cases forward with
  | true =>
    have order : x ≤ found.root := before
    rcases lt_or_gt_of_ne nonzero with negative | positive
    · refine ⟨lt_of_le_of_lt (begun : window.start ≤ x) (by linarith), ?_⟩
      rcases sign with zero | ⟨⟨_, opposite⟩, _⟩
      · exact (sub_eq_zero.mp zero).ge
      · exact (sub_pos.mp (opposite negative)).le
    · rcases sign with zero | ⟨⟨opposite, _⟩, _⟩
      · linarith
      · exact absurd (opposite (by linarith)) (not_lt.mpr positive.le)
  | false =>
    have order : found.root ≤ x := before
    rcases lt_or_gt_of_ne nonzero with negative | positive
    · rcases sign with zero | ⟨⟨_, opposite⟩, _⟩
      · linarith
      · linarith [opposite negative]
    · refine ⟨lt_of_lt_of_le (by linarith) (begun : x ≤ window.start), ?_⟩
      rcases sign with zero | ⟨⟨opposite, _⟩, _⟩
      · exact (sub_eq_zero.mp zero).le
      · exact not_lt.mp fun later => absurd (opposite (by linarith)) (not_lt.mpr positive.le)

/-- A trigger that still waits before its time is found by the search of a window that reaches
it. -/
theorem Channel.firstRoot_waiting (trigger : watch.1.IsTrigger c) (keeps : channel.Keeps window.start y watch)
    (valid : watch.2.valid = true) (armed : channel.armed = true) (before : Precedes forward window.start c)
    (ahead : Precedes forward window.start window.stop) (reached : NotAfter forward c window.stop) :
    ¬ (channel.firstRoot forward window).Returns none := by
  rintro ⟨w, w', ran⟩
  have accepting : ∀ found, channel.accepts found = true := by
    intro found
    have wanted : channel.handler.direction = 0 := keeps.handler ▸ trigger.direction
    simp [accepts, armed, Handler.wants, wanted]
  have start := keeps.gRef_eq trigger
  have nonzero : channel.gRef ≠ 0 := by
    rw [start]
    exact sub_ne_zero.mpr before.ne
  obtain ⟨gb, sample, stopNonzero, sign⟩ :=
    firstRoot_none (keeps.settings ▸ valid) accepting (keeps.tRef.symm ▸ ahead) nonzero ran
  obtain rfl := along_trigger trigger keeps sample
  rw [start] at sign
  cases forward with
  | true =>
    have behind : c ≤ window.stop := reached
    have positive : 0 < window.stop - c := lt_of_le_of_ne (by linarith) stopNonzero.symm
    have early : window.start < c := before
    linarith [sign.mp positive]
  | false =>
    have behind : window.stop ≤ c := reached
    have late : c < window.start := before
    linarith [sign.mpr (by linarith)]

end

namespace Monitor

variable {m m' : Monitor ω Rat} {index : Nat} {t : Rat} {y : State Rat} {v v' : ω}

/-- No event of a handler has been dealt with, and its channel is armed. -/
def Untouched (m : Monitor ω Rat) (index : Nat) : Prop :=
  ∀ c ∈ m.channels[index]?, c.lastEvent = none ∧ c.armed = true

theorem untouched_create (watches : List (Handler ω Rat × Settings Rat)) :
    (create watches).Untouched index := by
  intro c mem
  rw [create, List.getElem?_map, Option.mem_def, Option.map_eq_some_iff] at mem
  obtain ⟨watch, _, rfl⟩ := mem
  exact ⟨rfl, rfl⟩

theorem untouched_init {target : Rat} (ran : (init t y target).runFrom (m, v) = (.ok (), m', v')) :
    m'.Untouched index := by
  intro c mem
  obtain ⟨_, _, opened⟩ := forall₂_getElem? (init_ok ran).2 mem
  exact ⟨opened.lastEvent, opened.armed⟩

theorem Untouched.commit (untouched : m.Untouched index) (ran : (commit t y).runFrom (m, v) = (.ok (), m', v')) :
    m'.Untouched index := by
  intro c mem
  obtain ⟨c₀, at_, committed⟩ := forall₂_getElem? (commit_ok ran).2 mem
  obtain ⟨fresh, armed⟩ := untouched c₀ at_
  exact ⟨committed.lastEvent.trans fresh, by rw [committed.armed, armed, Bool.true_or]⟩

/-- The event of one handler does not touch another. -/
theorem Untouched.acknowledge {other : Nat} (untouched : m.Untouched index) (different : other ≠ index)
    (ran : (acknowledge other t).runFrom (m, v) = (.ok (), m', v')) : m'.Untouched index := by
  obtain ⟨c₀, _, _, rfl⟩ := acknowledge_ok ran
  intro c mem
  rw [Option.mem_def, List.getElem?_set_ne different] at mem
  exact untouched c mem

theorem Untouched.congr (untouched : m.Untouched index) (channels : m'.channels = m.channels) :
    m'.Untouched index := by
  rw [Untouched, channels]
  exact untouched

/-- The channel of a trigger that still waits. -/
theorem Keeps.waiting {watches : List (Handler ω Rat × Settings Rat)} {forward : Bool} {c : Rat}
    {watch : Handler ω Rat × Settings Rat} (kept : m.Keeps watches forward t y) (at_ : watches[index]? = some watch)
    (trigger : watch.1.IsTrigger c) (untouched : m.Untouched index) :
    m.channels[index]? = some (.waiting watch c t) ∧ Channel.Keeps t y watch (.waiting watch c t) := by
  obtain ⟨channel, entry, keeps⟩ := forall₂_getElem? kept.channels.flip at_
  obtain ⟨fresh, armed⟩ := untouched channel entry
  have same : channel = .waiting watch c t := by
    rw [Channel.waiting, ← keeps.gRef_eq trigger, ← keeps.handler, ← keeps.settings, ← keeps.tRef, ← fresh, ← armed]
  exact ⟨same ▸ entry, same ▸ keeps⟩

end Monitor

/-- A trigger waits at a stage: its time is behind the reference points and behind the piece that is
being dealt with, and nobody has interrupted the run. -/
def Stage.Waits (forward : Bool) (c : Rat) (index : Nat) : Stage ω → Prop
  | opening _ _ => True
  | stepping t _ _ => Precedes forward t c
  | scanning _ window => Precedes forward window.start c
  | located _ _ first _ => Precedes forward first.t c
  | asking cut _ verdict => Precedes forward cut.piece.stop c ∧ verdict = .carryOn
  | awaiting cut o _ _ verdict => Precedes forward cut.piece.stop c ∧ verdict = .carryOn ∧ o.index ≠ index
  | decided cut _ verdict => Precedes forward cut.piece.stop c ∧ verdict = .carryOn
  | accepted cut _ verdict => Precedes forward cut.piece.stop c ∧ verdict = .carryOn
  | told cut verdict => Precedes forward cut.piece.stop c ∧ verdict = .carryOn
  | restarting _ _ _ => False
  | ended _ _ => False

/-- A trigger with a time inside the span of a run that no handler interrupts. -/
structure Course.Triggers (course : Course ω Rat) (watches : List (Handler ω Rat × Settings Rat)) (t0 c : Rat)
    (index : Nat) (watch : Handler ω Rat × Settings Rat) : Prop where
  directed : course.Directed watches t0
  calm : ∀ watch ∈ watches, watch.1.CarriesOn
  registered : watches[index]? = some watch
  trigger : watch.1.IsTrigger c
  behind : Precedes course.forward t0 c
  before : Precedes course.forward c course.target

/-- All events that a journal reports as located come before a time. -/
def Journal.Before (forward : Bool) (c : Rat) (j : Journal Rat) : Prop :=
  ∀ window group, .located window group ∈ j → ∀ o ∈ group, Precedes forward o.t c

@[simp] theorem Journal.told_append (j j' : Journal Rat) (index : Nat) :
    (j ++ j').told index = j.told index + j'.told index := by
  rw [told, notifications, List.filterMap_append, List.countP_append]
  rfl

/-- An entry that does not put an event to a handler tells nobody. -/
theorem Journal.told_silent {e : Entry Rat} (silent : e.notification? = none) (index : Nat) :
    Journal.told [e] index = 0 := by
  rw [told, notifications, List.filterMap_cons, silent]
  rfl

section

variable [Spacing Rat] {course : Course ω Rat} {watches : List (Handler ω Rat × Settings Rat)} {t0 c : Rat}
  {index : Nat} {watch : Handler ω Rat × Settings Rat} {s s' : Session ω Rat} {window : Window Rat}

omit [Spacing Rat] in
theorem Course.Triggers.valid (triggers : course.Triggers watches t0 c index watch) : watch.2.valid = true :=
  triggers.directed.valid watch (List.mem_of_getElem? triggers.registered)

/-- A reported root of a trigger is not before its time, and the window starts before it. -/
theorem Course.Triggers.reported (triggers : course.Triggers watches t0 c index watch) {o : Occurrence Rat} {t : Rat}
    (reported : o.Reported watches course.forward window t) (own : o.index = index) :
    Precedes course.forward window.start c ∧ NotAfter course.forward c o.root := by
  obtain ⟨watch', channel, at_, keeps, searched⟩ := reported.searched
  rw [own, triggers.registered] at at_
  cases at_
  exact Channel.firstRoot_trigger triggers.trigger keeps triggers.valid searched

/-- A window that reaches the time of a waiting trigger has an event. -/
theorem Course.Triggers.candidate (triggers : course.Triggers watches t0 c index watch)
    (kept : s.monitor.Keeps watches course.forward window.start window.yStart)
    (untouched : s.monitor.Untouched index) (waits : Precedes course.forward window.start c)
    (ahead : Precedes course.forward window.start window.stop) (reached : NotAfter course.forward c window.stop)
    {found : List (Candidate Rat)} {v v' : ω}
    (searched : (Monitor.candidates s.monitor.forward window 0 s.monitor.channels).runFrom v = (.ok found, v')) :
    ∃ k ∈ found, k.index = index ∧
      ((Channel.waiting watch c window.start).firstRoot course.forward window).Returns (some k.found) := by
  obtain ⟨channel, keeps⟩ := kept.waiting triggers.registered triggers.trigger untouched
  obtain ⟨_, reported, complete⟩ := Monitor.candidates_ok searched
  rw [kept.forward_eq] at reported complete
  rcases complete index _ channel with unreached | ⟨k, mem, own⟩
  · exact absurd unreached
      (Channel.firstRoot_waiting triggers.trigger keeps triggers.valid rfl waits ahead reached)
  · rw [Nat.zero_add] at own
    obtain ⟨i, channel', same, at_, returned⟩ := reported k mem
    rw [Nat.zero_add] at same
    rw [← same, own, channel] at at_
    cases at_
    exact ⟨k, mem, own, returned⟩

/-- The group of an event in a window that reaches the time of a waiting trigger has a member with
the earliest root, and the trigger is a member if and only if its own root is within the tolerance
of that one. -/
theorem Course.Triggers.grouped (triggers : course.Triggers watches t0 c index watch) {group : List (Occurrence Rat)}
    (scanned : (Course.scan window).runFrom s = (.ok group, s'))
    (kept : s.monitor.Keeps watches course.forward window.start window.yStart)
    (untouched : s.monitor.Untouched index) (waits : Precedes course.forward window.start c)
    (ahead : Precedes course.forward window.start window.stop) (reached : NotAfter course.forward c window.stop) :
    ∃ winner ∈ group, ∃ winnerWatch found, (∀ o ∈ group, NotAfter course.forward winner.root o.root) ∧
      watches[winner.index]? = some winnerWatch ∧
      ((Channel.waiting watch c window.start).firstRoot course.forward window).Returns (some found) ∧
      ((∃ o ∈ group, o.index = index) ↔ |found.root - winner.root| ≤ winnerWatch.2.convergence) := by
  obtain ⟨_, _, found, _, _, searched, rfl⟩ := Course.scan_ok scanned
  obtain ⟨k, candidate, own, root⟩ := triggers.candidate kept untouched waits ahead reached searched
  obtain ⟨winner, member, winnerWatch, winnerAt, spread, isMember⟩ :=
    kept.winner triggers.directed searched (List.ne_nil_of_mem candidate)
  have decides := isMember k candidate
  rw [own] at decides
  exact ⟨winner, member, winnerWatch, k.found, fun o mem => (spread o mem).1, winnerAt, root, decides⟩

/-- While a trigger waits, the events put to handlers are those of others. -/
theorem Course.Triggers.other (triggers : course.Triggers watches t0 c index watch) {o : Occurrence Rat} {t : Rat}
    (reported : o.Reported watches course.forward window t) (waits : Precedes course.forward t c) :
    o.index ≠ index := by
  intro own
  have root := (triggers.reported reported own).2
  exact not_precedes.mpr (root.trans reported.reached) waits

private theorem silent_move (triggers : course.Triggers watches t0 c index watch) {p q : Stage ω}
    (move : Move course (p, s) (q, s')) (route : p.OnRoute course watches t0 s.monitor)
    (waits : p.Waits course.forward c index) : s'.journal.told index = s.journal.told index := by
  rcases move.journal with same | ⟨e, grown, writes⟩
  · rw [same]
  · rw [grown, Journal.told_append]
    cases writes with
    | @asked cut o =>
      obtain ⟨_, _, _, reported⟩ := route
      have other := triggers.other (reported o List.mem_cons_self) waits.1
      simp [Journal.told, Journal.notifications, Entry.notification?, other]
    | _ => rfl

private theorem untouched_move {p q : Stage ω} (move : Move course (p, s) (q, s'))
    (waits : p.Waits course.forward c index) (untouched : s.monitor.Untouched index) : s'.monitor.Untouched index := by
  cases move with
  | «open» derivative fits watched observed =>
    obtain ⟨_, _, initialized, rfl⟩ := Session.onMonitor_ok.mp watched
    obtain ⟨_, _, _, rfl⟩ := Session.onObservers_ok.mp observed
    exact Monitor.untouched_init initialized
  | step taken =>
    obtain ⟨_, _, _, _, monitor⟩ := Course.nextLeg_ok taken
    rwa [monitor]
  | clear scanned => exact untouched.congr (Course.scan_ok scanned).1
  | locate scanned => exact untouched.congr (Course.scan_ok scanned).1
  | answer answered acknowledged =>
    obtain ⟨_, _, rfl⟩ := Session.outside_ok.mp answered
    obtain ⟨_, _, marked, rfl⟩ := Session.onMonitor_ok.mp acknowledged
    exact Monitor.Untouched.acknowledge untouched waits.2.2 marked
  | tell told =>
    obtain ⟨_, _, _, rfl⟩ := Session.onObservers_ok.mp told
    exact untouched
  | replace reset fits =>
    obtain ⟨_, _, rfl⟩ := Session.outside_ok.mp reset
    exact untouched
  | refresh committed =>
    obtain ⟨_, _, moved, rfl⟩ := Session.onMonitor_ok.mp committed
    exact untouched.commit moved
  | resume committed resumed =>
    obtain ⟨_, _, moved, rfl⟩ := Session.onMonitor_ok.mp committed
    exact untouched.commit moved
  | _ => exact untouched

private theorem waits_move (triggers : course.Triggers watches t0 c index watch) {p q : Stage ω}
    (move : Move course (p, s) (q, s')) (route : p.OnRoute course watches t0 s.monitor)
    (early : s'.journal.Before course.forward c) (waits : p.Waits course.forward c index)
    (untouched : s.monitor.Untouched index) : q.Waits course.forward c index := by
  cases move with
  | «open» derivative fits watched observed =>
    obtain ⟨rfl, _⟩ := route
    exact triggers.behind
  | step taken =>
    obtain ⟨_, start, _⟩ := Course.nextLeg_ok taken
    rw [Stage.Waits, Window.ofStep, start]
    exact waits
  | clear scanned =>
    -- a window that reached the time of the trigger would not be clear
    obtain ⟨covers, kept⟩ := route
    refine ⟨?_, rfl⟩
    by_contra reached
    obtain ⟨_, member, _⟩ := triggers.grouped scanned kept untouched waits covers.ahead (not_precedes.mp reached)
    exact List.not_mem_nil member
  | locate scanned => exact early _ _ (by rw [journal_noted]; exact List.mem_concat_self) _ List.mem_cons_self
  | cut truncated =>
    obtain ⟨_, _, stop, _, _⟩ := Window.truncate_ok truncated
    refine ⟨?_, rfl⟩
    rw [stop]
    exact waits
  | ask watched =>
    obtain ⟨_, _, _, reported⟩ := route
    exact ⟨waits.1, waits.2, triggers.other (reported _ List.mem_cons_self) waits.1⟩
  | answer answered acknowledged =>
    rename_i action _
    obtain ⟨_, _, ⟨settings, at_⟩, _⟩ := route
    obtain ⟨_, called, _⟩ := outside_ok.mp answered
    obtain rfl := triggers.calm _ (List.mem_of_getElem? at_) _ _ _ _ (Effect.returns_of_runFrom called)
    exact ⟨waits.1, waits.2.1⟩
  | decide => exact waits
  | accept affordable => exact waits
  | tell told => exact waits
  | stop => cases waits.2
  | replace reset fits => cases waits.2
  | restart => cases waits.2
  | refresh committed => exact waits.elim
  | resume committed resumed =>
    obtain ⟨fits, _, _⟩ := route
    cases resumed with
    | ended whole last =>
      have atEnd := (whole.trans fits.covers.stop).trans (fits.covers.last last)
      exact absurd triggers.before (not_precedes.mpr (atEnd ▸ waits.1.notAfter))
    | stepping whole more => exact waits.1
    | scanning inner narrowed =>
      obtain ⟨_, start, _, _, _⟩ := Window.restrict_ok narrowed
      rw [Stage.Waits, start]
      exact waits.1

/-- A trigger waits at every stage of a run up to which all located events come before its time. -/
theorem waits_moves (triggers : course.Triggers watches t0 c index watch) {q : Stage ω} {y0 : State Rat}
    (path : Moves course (.opening t0 y0, s) (q, s')) (created : s.monitor = Monitor.create watches)
    (empty : s.journal = []) (early : s'.journal.Before course.forward c) :
    q.Waits course.forward c index ∧ s'.monitor.Untouched index ∧ s'.journal.told index = 0 := by
  have all := path.preserve
    (P := fun p u => p.OnRoute course watches t0 u.monitor ∧ (u.journal.Before course.forward c →
      p.Waits course.forward c index ∧ u.monitor.Untouched index ∧ u.journal.told index = 0))
    ⟨⟨rfl, created ▸ rfl⟩, fun _ => ⟨trivial, created ▸ Monitor.untouched_create watches, empty ▸ rfl⟩⟩
    fun p u q u' ⟨route, waiting⟩ move => by
      refine ⟨onRoute_move triggers.directed move route, fun early => ?_⟩
      have earlier : u.journal.Before course.forward c := by
        rcases move.journal with same | ⟨e, grown, _⟩
        · exact same ▸ early
        · exact fun window group mem => early window group (grown ▸ List.mem_append_left _ mem)
      obtain ⟨waits, untouched, silent⟩ := waiting earlier
      exact ⟨waits_move triggers move route early waits untouched, untouched_move move waits untouched,
        (silent_move triggers move route waits).trans silent⟩
  exact all.2 early

omit [Spacing Rat] in
/-- A journal in which not all events come before a time has a first one that does not. -/
theorem Journal.exists_first {forward : Bool} {j : Journal Rat} (reached : ¬ j.Before forward c) :
    ∃ before window group after, j = before ++ .located window group :: after ∧ Journal.Before forward c before ∧
      ∃ o ∈ group, NotAfter forward c o.t := by
  induction j with
  | nil => exact absurd (fun _ _ mem => absurd mem List.not_mem_nil) reached
  | cons e rest ih =>
    by_cases first : ∃ window group, e = .located window group ∧ ∃ o ∈ group, NotAfter forward c o.t
    · obtain ⟨window, group, rfl, own⟩ := first
      exact ⟨[], window, group, rest, rfl, fun _ _ mem => absurd mem List.not_mem_nil, own⟩
    · have head : ∀ window group, e = .located window group → ∀ o ∈ group, Precedes forward o.t c := by
        intro window group same o mem
        by_contra late
        exact first ⟨window, group, same, o, mem, not_precedes.mp late⟩
      have later : ¬ Journal.Before forward c rest := by
        intro early
        refine reached fun window group mem => ?_
        rcases List.mem_cons.mp mem with same | mem
        · exact head window group same.symm
        · exact early window group mem
      obtain ⟨before, window, group, after, rfl, early, own⟩ := ih later
      refine ⟨e :: before, window, group, after, rfl, fun window group mem => ?_, own⟩
      rcases List.mem_cons.mp mem with same | mem
      · exact head window group same.symm
      · exact early window group mem

omit [Spacing Rat] in
/-- Handlers that let the run go on are all told, each as often as it is a member. -/
theorem Consulted.told_eq {answers : Occurrence Rat → Action → Prop} {y : State Rat} {members : List (Occurrence Rat)}
    {verdict decided : Verdict ω Rat} {entries : List (Entry Rat)}
    (consulted : Consulted answers y members verdict entries decided)
    (calm : ∀ o action, answers o action → action = .carryOn) :
    Journal.told entries index = members.countP fun o => o.index == index := by
  induction consulted with
  | nobody => rfl
  | @heard o action rest _ entries _ _ _ _ ih =>
    have one : Journal.told [.asked o y, .answered o.index action] index = if o.index == index then 1 else 0 := by
      simp [Journal.told, Journal.notifications, Entry.notification?, List.countP_cons]
    have split : .asked o y :: .answered o.index action :: entries =
        [.asked o y, .answered o.index action] ++ entries := rfl
    rw [split, Journal.told_append, ih, one, List.countP_cons, Nat.add_comm]
  | cutOff answer interrupts =>
    rw [calm _ _ answer] at interrupts
    cases interrupts

omit [Spacing Rat] in
/-- In a group every handler is a member at most once. -/
theorem Monitor.Found.countP_index {m : Monitor ω Rat} [Spacing Rat] {group : List (Occurrence Rat)}
    (found : m.Found window group) :
    (group.countP fun o => o.index == index) = if ∃ o ∈ group, o.index = index then 1 else 0 := by
  have distinct : (group.map fun o => o.index).Nodup :=
    List.pairwise_map.mpr (found.ordered.imp fun less => less.ne)
  have count : (group.countP fun o => o.index == index) = (group.map fun o => o.index).count index := by
    rw [List.count, List.countP_map]
    rfl
  rw [count]
  by_cases member : index ∈ group.map fun o => o.index
  · rw [List.count_eq_one_of_mem distinct member, if_pos (by simpa using member)]
  · rw [List.count_eq_zero_of_not_mem member, if_neg (by simpa using member)]

/-- Behind the time of a trigger its handler is not told any more. -/
theorem Course.Triggers.told_behind (triggers : course.Triggers watches t0 c index watch) {t : Rat}
    {later : Journal Rat} (reached : NotAfter course.forward c t) (behind : later.Behind course watches t) :
    Journal.told later index = 0 := by
  rw [Journal.told, List.countP_eq_zero]
  intro n mem own
  obtain ⟨e, entry, asked⟩ := List.mem_filterMap.mp mem
  cases e with
  | asked o y =>
    cases asked
    obtain ⟨window, begun, reported⟩ := behind o y entry
    have early := (triggers.reported reported (by simpa using own)).1
    exact not_precedes.mpr (reached.trans begun) early
  | _ => cases asked

/-- In a run that returns without an interruption there is a first event at the time of a trigger or
behind it. The search of the trigger has reported a root in the same scan, and its handler is told
exactly once in the run if this root is within the tolerance of the earliest one, and never
otherwise. -/
theorem Engine.integrate_trigger {e e' : Engine ω Rat} (usable : e.Usable) {equation : Equation ω Rat}
    {t0 target t : Rat} {y0 y : State Rat} {w w' : ω}
    (ran : (Engine.integrate equation t0 y0 target).runFrom (e, w) = (.ok (t, y), e', w'))
    (calm : ∀ watch ∈ e.watches, watch.1.CarriesOn) {forward : Bool} (direction : forward = decide (t0 < target))
    (registered : e.watches[index]? = some watch) (trigger : watch.1.IsTrigger c) (behind : Precedes forward t0 c)
    (ahead : Precedes forward c target) :
    ∃ before window group after winner winnerWatch found,
      e'.journal = before ++ .located window group :: after ∧
      Journal.Before forward c before ∧ (∀ o ∈ group, NotAfter forward c o.t) ∧
      winner ∈ group ∧ (∀ o ∈ group, NotAfter forward winner.root o.root) ∧
      e.watches[winner.index]? = some winnerWatch ∧
      ((Channel.waiting watch c window.start).firstRoot forward window).Returns (some found) ∧
      e'.journal.told index = if |found.root - winner.root| ≤ winnerWatch.2.convergence then 1 else 0 := by
  obtain ⟨course, v, prepared, path, journal, _⟩ := integrate_path ran
  obtain ⟨directed, _, _, aim, _, forward_eq⟩ := prepare_ok usable prepared
  obtain rfl : forward = course.forward := direction.trans forward_eq.symm
  have triggers : course.Triggers e.watches t0 c index watch :=
    ⟨directed, calm, registered, trigger, behind, aim.symm ▸ ahead⟩
  -- the run ends behind the time of the trigger, so some event is not before it
  have reached : ¬ v.journal.Before course.forward c := fun early => (waits_moves triggers path rfl rfl early).1
  obtain ⟨before, window, group, after, entries, early, o, mem, late⟩ := Journal.exists_first reached
  obtain ⟨leg, first, rest, s₁, s₂, piece, replies, decided, last, later, rfl, earlier, short, scanned, _, consulted,
    split, later_behind, _⟩ := path.reaction directed rfl rfl entries
  obtain ⟨waits, untouched, silent⟩ := waits_moves triggers earlier rfl rfl (short ▸ early)
  rw [short] at silent
  obtain ⟨covers, kept⟩ := onRoute_moves directed earlier ⟨rfl, rfl⟩
  have group := Course.found_of_scan scanned
  have all : ∀ o' ∈ first :: rest, NotAfter course.forward c o'.t := by
    intro o' mem'
    rw [(group.shared o mem o' mem').1]
    exact late
  obtain ⟨winner, member, winnerWatch, found, earliest, winnerAt, root, decides⟩ := triggers.grouped scanned kept
    untouched waits covers.ahead (late.trans (kept.event_reached directed group mem))
  have calmly : ∀ o' action, Answers e.watches piece.stop piece.yStop o' action → action = .carryOn := by
    rintro o' action ⟨watch', at_', answer⟩
    exact calm watch' (List.mem_of_getElem? at_') _ _ _ _ answer
  have count : v.journal.told index = if ∃ o' ∈ first :: rest, o'.index = index then 1 else 0 := by
    rw [entries, split, ← List.singleton_append (l := later), ← List.singleton_append]
    simp only [Journal.told_append, silent, consulted.told_eq calmly, group.countP_index,
      triggers.told_behind (all first List.mem_cons_self) later_behind,
      Journal.told_silent (e := .located _ _) rfl, Journal.told_silent (e := .accepted _ _) rfl, Nat.zero_add,
      Nat.add_zero]
  refine ⟨before, window, first :: rest, after, winner, winnerWatch, found, journal.trans entries, early, all, member,
    earliest, winnerAt, root, ?_⟩
  rw [journal, count]
  simp only [decides]

end

/-- Two timers that let the run go on: the earlier one has a coarse tolerance, the later one a fine
one. -/
def Engine.coarseAndFine : Engine Unit Rat :=
  .timed 1 [(.timer (1 / 2) .carryOn (.ofList [0]), ⟨none, 1, 100, none⟩),
    (.timer (3 / 4) .carryOn (.ofList [0]), ⟨none, 1 / 1000000, 100, none⟩)]

/-- The coarse root of the earlier timer lies behind the event of the later one, and the earlier
timer is never told. -/
theorem Engine.trigger_swallowed :
    letI := Spacing.gapless
    let run := (Engine.integrate .steady 0 (.ofList [0]) 1).runFrom (Engine.coarseAndFine, ())
    run.1 = .ok (1, .ofList [1]) ∧ run.2.1.journal.told 0 = 0 ∧ run.2.1.journal.told 1 = 1 := by
  decide +kernel

/-- In the run of the two timers the root of the earlier one is too far from that of the later
one. -/
theorem Engine.coarse_root_too_far :
    letI := Spacing.gapless
    ∃ window winner found, ∃ watch ∈ Engine.coarseAndFine.watches, ∃ winnerWatch ∈ Engine.coarseAndFine.watches,
      ((Channel.waiting watch (1 / 2) window.start).firstRoot true window).Returns (some found) ∧
      winnerWatch.2.convergence < |found.root - Occurrence.root winner| := by
  have usable : Engine.coarseAndFine.Usable := usable_timed (by decide +kernel) (by decide +kernel)
  have calm : ∀ watch ∈ Engine.coarseAndFine.watches, watch.1.CarriesOn := by
    intro watch mem t y increasing action answer
    simp only [coarseAndFine, timed, List.map_cons, List.map_nil, List.mem_cons, List.not_mem_nil, or_false] at mem
    rcases mem with rfl | rfl <;> exact Effect.eq_of_returns_pure answer
  have returned : ((@Engine.integrate _ _ _ Spacing.gapless .steady 0 (.ofList [0]) 1).runFrom
      (Engine.coarseAndFine, ())).1 = .ok (1, .ofList [1]) := by decide +kernel
  have never : ((@Engine.integrate _ _ _ Spacing.gapless .steady 0 (.ofList [0]) 1).runFrom
      (Engine.coarseAndFine, ())).2.1.journal.told 0 = 0 := by decide +kernel
  have early : Precedes true 0 (1 / 2) := by norm_num [Precedes]
  have late : Precedes true (1 / 2) 1 := by norm_num [Precedes]
  obtain ⟨_, window, _, _, winner, winnerWatch, found, _, _, _, _, _, winnerAt, root, told⟩ :=
    @Engine.integrate_trigger _ Spacing.gapless _ 0 _ _ _ usable _ _ _ _ _ _ _ _ (Prod.ext returned rfl) calm true
      (by decide +kernel) rfl ⟨fun _ _ => rfl, rfl⟩ early late
  refine ⟨window, winner, found, _, List.mem_cons_self, winnerWatch, List.mem_of_getElem? winnerAt, root, ?_⟩
  rw [never] at told
  by_contra near
  rw [if_pos (not_lt.mp near)] at told
  cases told

end Trajectory
