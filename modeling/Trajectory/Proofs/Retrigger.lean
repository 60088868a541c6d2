import Mathlib.Tactic
import Trajectory.Proofs.Reaction
import Trajectory.Proofs.Timer

/-!
No handler is told twice of the same event.

A channel rests if it remembers the last event that its handler was told of, and is armed only once
the reference point has left the re-trigger window (`Channel.Rested`). What a rested channel accepts
is due: it lies behind the last event by more than the window (`Channel.Rested.due`), and so does the
time that its group shares. Every move keeps the channel of a handler at rest (`rests_move`,
`rests_ask`), whatever the other handlers of a group do, so the events of one handler stay apart
throughout a run (`integrate_apart`).
-/

namespace Trajectory

open Session

variable {ω : Type} {forward : Bool} {gap s t : Rat} {times : List Rat}

/-- The times of the events that a handler has been told of, in order. -/
def Journal.eventTimes (j : Journal Rat) (index : Nat) : List Rat :=
  (j.notifications.filter fun n => n.1.index == index).map fun n => n.1.t

@[simp] theorem Journal.eventTimes_append (j j' : Journal Rat) (index : Nat) :
    (j ++ j').eventTimes index = j.eventTimes index ++ j'.eventTimes index := by
  simp only [eventTimes, notifications, List.filterMap_append, List.filter_append, List.map_append]

theorem Journal.eventTimes_silent {e : Entry Rat} (silent : e.notification? = none) (index : Nat) :
    Journal.eventTimes [e] index = [] := by
  simp [eventTimes, notifications, silent]

@[simp] theorem Journal.eventTimes_asked (o : Occurrence Rat) (y : State Rat) (index : Nat) :
    Journal.eventTimes [.asked o y] index = if o.index = index then [o.t] else [] := by
  by_cases own : o.index = index <;> simp [eventTimes, notifications, Entry.notification?, own]

/-- Times along a run of which any later one is more than a gap behind any earlier one. -/
def Apart (forward : Bool) (gap : Rat) (times : List Rat) : Prop :=
  times.Pairwise fun s t => Precedes forward s t ∧ gap < |t - s|

/-- A time more than a gap behind the last of some times. -/
def Due (forward : Bool) (gap : Rat) (times : List Rat) (t : Rat) : Prop :=
  ∀ last ∈ times.getLast?, Precedes forward last t ∧ gap < |t - last|

/-- Along a run, what is farther behind is at a greater distance. -/
theorem abs_sub_le_of_notAfter {r : Rat} (first : NotAfter forward r s) (second : NotAfter forward s t) :
    |t - s| ≤ |t - r| ∧ |s - r| ≤ |t - r| := by
  rw [first.abs_sub, second.abs_sub, (first.trans second).abs_sub]
  rw [notAfter_iff_sign] at first second
  constructor <;> linarith

theorem Due.later (due : Due forward gap times s) (later : NotAfter forward s t) : Due forward gap times t := by
  intro last mem
  obtain ⟨behind, far⟩ := due last mem
  exact ⟨behind.trans_notAfter later, far.trans_le (abs_sub_le_of_notAfter behind.notAfter later).2⟩

theorem Apart.concat (apart : Apart forward gap times) (due : Due forward gap times t) :
    Apart forward gap (times ++ [t]) := by
  refine List.pairwise_append.mpr ⟨apart, List.pairwise_singleton _ _, fun s mem t' only => ?_⟩
  obtain rfl := List.mem_singleton.mp only
  rcases List.eq_nil_or_concat times with rfl | ⟨before, last, rfl⟩
  · exact absurd mem List.not_mem_nil
  rw [List.concat_eq_append] at apart due mem
  obtain ⟨behind, far⟩ := due last List.getLast?_concat
  rcases List.mem_append.mp mem with earlier | same
  · have order := ((List.pairwise_append.mp apart).2.2 s earlier last List.mem_cons_self).1
    exact ⟨order.trans behind, far.trans_le (abs_sub_le_of_notAfter order.notAfter behind.notAfter).1⟩
  · rw [List.mem_singleton.mp same]
    exact ⟨behind, far⟩

namespace Channel

variable {c c' : Channel ω Rat} {found : Crossing Rat} {y : State Rat}

theorem inWindow_iff : c.inWindow t = true ↔ ∃ last ∈ c.lastEvent, |t - last| ≤ c.settings.window := by
  cases event : c.lastEvent <;> simp [inWindow, event]

/-- A channel that remembers the last of its handler's events. It is armed only if a time has left
the re-trigger window. -/
structure Rested (forward : Bool) (gap : Rat) (times : List Rat) (t : Rat) (c : Channel ω Rat) : Prop where
  window : c.settings.window = gap
  lastEvent : c.lastEvent = times.getLast?
  passed : ∀ last ∈ times.getLast?, NotAfter forward last t
  armed : c.armed = true → ∀ last ∈ times.getLast?, gap < |t - last|

theorem Rested.later (rested : c.Rested forward gap times s) (later : NotAfter forward s t) :
    c.Rested forward gap times t := by
  refine ⟨rested.window, rested.lastEvent, fun last mem => (rested.passed last mem).trans later, ?_⟩
  intro armed last mem
  exact (rested.armed armed last mem).trans_le (abs_sub_le_of_notAfter (rested.passed last mem) later).2

/-- What lies outside the re-trigger window of a rested channel is farther than it from the last event. -/
theorem Rested.outside (rested : c.Rested forward gap times s) (outside : c.inWindow t = false) :
    ∀ last ∈ times.getLast?, gap < |t - last| := by
  intro last mem
  by_contra near
  have inside : c.inWindow t = true :=
    inWindow_iff.mpr ⟨last, rested.lastEvent ▸ mem, rested.window.symm ▸ not_lt.mp near⟩
  rw [outside] at inside
  cases inside

/-- A root behind the reference point of a rested channel that the channel accepts is due. -/
theorem Rested.due (rested : c.Rested forward gap times t) (behind : Precedes forward t found.root)
    (accepted : c.accepts found = true) : Due forward gap times found.root := by
  intro last mem
  have passed := rested.passed last mem
  refine ⟨passed.trans_precedes behind, ?_⟩
  cases armed : c.armed with
  | true => exact (rested.armed armed last mem).trans_le (abs_sub_le_of_notAfter passed behind.notAfter).2
  | false =>
    simp only [accepts, armed, Bool.not_false, Bool.true_and, Bool.and_eq_true, Bool.not_eq_true'] at accepted
    exact rested.outside accepted.1 last mem

/-- A commit arms a rested channel once its window is left behind. -/
theorem Rested.commit (rested : c.Rested forward gap times t) (committed : Monitor.Committed t y c c') :
    c'.Rested forward gap times t := by
  refine ⟨committed.settings ▸ rested.window, committed.lastEvent.trans rested.lastEvent, rested.passed, ?_⟩
  intro armed last mem
  rw [committed.armed, Bool.or_eq_true, Bool.not_eq_true'] at armed
  rcases armed with before | outside
  · exact rested.armed before last mem
  · exact rested.outside outside last mem

end Channel

/-- The channel of a handler rests at a time. -/
def Monitor.Rested (forward : Bool) (gap : Rat) (index : Nat) (times : List Rat) (t : Rat)
    (m : Monitor ω Rat) : Prop :=
  ∀ c ∈ m.channels[index]?, c.Rested forward gap times t

namespace Monitor

variable {m m' : Monitor ω Rat} {index : Nat} {y : State Rat} {v v' : ω}

theorem Rested.later (rested : m.Rested forward gap index times s) (later : NotAfter forward s t) :
    m.Rested forward gap index times t :=
  fun c mem => (rested c mem).later later

theorem Rested.congr (rested : m.Rested forward gap index times t) (channels : m'.channels = m.channels) :
    m'.Rested forward gap index times t := by
  rw [Rested, channels]
  exact rested

theorem Rested.commit (rested : m.Rested forward gap index times t)
    (ran : (commit t y).runFrom (m, v) = (.ok (), m', v')) : m'.Rested forward gap index times t := by
  intro c' mem
  obtain ⟨c, at_, committed⟩ := forall₂_getElem? (commit_ok ran).2 mem
  exact (rested c at_).commit committed

/-- At the start of a run, when no handler has been told of an event, every channel rests. -/
theorem rested_init {watches : List (Handler ω Rat × Settings Rat)} {watch : Handler ω Rat × Settings Rat}
    {direction : Bool} {target : Rat} (kept : m'.Keeps watches direction t y)
    (registered : watches[index]? = some watch) (ran : (init t y target).runFrom (m, v) = (.ok (), m', v')) :
    m'.Rested forward watch.2.window index [] t := by
  intro c mem
  obtain ⟨watch', own, _, keeps⟩ := kept.channel mem
  obtain ⟨_, _, opened⟩ := forall₂_getElem? (init_ok ran).2 mem
  rw [registered] at own
  cases own
  have unended : ∀ last : Rat, last ∉ ([] : List Rat).getLast? := fun last mem => by cases mem
  exact ⟨congrArg Settings.window keeps.settings, opened.lastEvent, fun last mem => absurd mem (unended last),
    fun _ last mem => absurd mem (unended last)⟩

/-- A channel rests when the event that its handler has just been told of is acknowledged. -/
theorem rested_acknowledged {watches : List (Handler ω Rat × Settings Rat)} {watch : Handler ω Rat × Settings Rat}
    (kept : m.Keeps watches forward s y) (registered : watches[index]? = some watch)
    (last : times.getLast? = some t) (ran : (acknowledge index t).runFrom (m, v) = (.ok (), m', v')) :
    m'.Rested forward watch.2.window index times t := by
  obtain ⟨c, at_, _, rfl⟩ := acknowledge_ok ran
  obtain ⟨watch', own, _, keeps⟩ := kept.channel at_
  rw [registered] at own
  cases own
  intro c' mem
  rw [Option.mem_def, List.getElem?_set_self (List.getElem?_eq_some_iff.mp at_).1] at mem
  cases mem
  refine ⟨congrArg Settings.window keeps.settings, last.symm, fun last' mem => ?_, fun armed => by cases armed⟩
  rw [last] at mem
  cases mem
  exact .refl

/-- The event of another handler leaves a channel at rest. -/
theorem Rested.acknowledge {other : Nat} (rested : m.Rested forward gap index times s) (different : other ≠ index)
    (ran : (acknowledge other t).runFrom (m, v) = (.ok (), m', v')) : m'.Rested forward gap index times s := by
  obtain ⟨c₀, _, _, rfl⟩ := acknowledge_ok ran
  intro c mem
  rw [Option.mem_def, List.getElem?_set_ne different] at mem
  exact rested c mem

end Monitor

/-- Members of a group that are still to be told of their event: a handler is told at most once, and
its event is due. -/
structure Pending (forward : Bool) (gap : Rat) (index : Nat) (times : List Rat) (members : List (Occurrence Rat)) :
    Prop where
  distinct : members.Pairwise fun o o' => o.index < o'.index
  due : ∀ o ∈ members, o.index = index → Due forward gap times o.t

/-- The channel of a handler rests at a stage, and what the handler is going to be told there is
due. -/
def Stage.Rests (forward : Bool) (gap : Rat) (index : Nat) (times : List Rat) (m : Monitor ω Rat) : Stage ω → Prop
  | opening _ _ => times = []
  | stepping t _ _ => m.Rested forward gap index times t
  | scanning _ window => m.Rested forward gap index times window.start
  | located _ window first rest =>
      m.Rested forward gap index times window.start ∧ Pending forward gap index times (first :: rest)
  | asking cut rest _ => m.Rested forward gap index times cut.piece.stop ∧ Pending forward gap index times rest
  | awaiting cut o _ rest _ => o.t = cut.piece.stop ∧ Pending forward gap index times rest ∧
      if o.index = index then times.getLast? = some o.t else m.Rested forward gap index times cut.piece.stop
  | decided cut _ _ => m.Rested forward gap index times cut.piece.stop
  | accepted cut _ _ => m.Rested forward gap index times cut.piece.stop
  | told cut _ => m.Rested forward gap index times cut.piece.stop
  | restarting t _ _ => m.Rested forward gap index times t
  | ended _ _ => True

section

variable [Spacing Rat] {course : Course ω Rat} {watches : List (Handler ω Rat × Settings Rat)} {t0 : Rat}
  {watch : Handler ω Rat × Settings Rat} {index : Nat} {s s' : Session ω Rat} {p q : Stage ω}

/-- What a scan finds with a resting channel is due, at the time that the group shares. -/
theorem Monitor.Rested.pending {window : Window Rat} {first : Occurrence Rat} {rest : List (Occurrence Rat)}
    (directed : course.Directed watches t0)
    (kept : s.monitor.Keeps watches course.forward window.start window.yStart)
    (rested : s.monitor.Rested course.forward watch.2.window index times window.start)
    (scanned : (Course.scan window).runFrom s = (.ok (first :: rest), s')) :
    Pending course.forward watch.2.window index times (first :: rest) := by
  have found := Course.found_of_scan scanned
  refine ⟨found.ordered, fun o mem own => ?_⟩
  obtain ⟨c, at_, _, _, searched⟩ := found.reported o mem
  obtain ⟨watch', _, member, keeps⟩ := kept.channel at_
  obtain ⟨accepted, _, _, _, _, spans⟩ := Channel.firstRoot_some
    (keeps.settings ▸ directed.valid watch' member) searched
  have root := (rested c (own ▸ at_)).due (keeps.tRef ▸ kept.forward_eq ▸ spans.behind) accepted
  exact root.later (kept.forward_eq ▸ (found.shared o mem o mem).2)

/-- Whether a stage is about to tell a handler of an event. -/
def Stage.IsAsking : Stage ω → Prop
  | asking _ (_ :: _) _ => True
  | _ => False

/-- A move that tells no handler of an event adds no event times. -/
theorem Move.eventTimes (move : Move course (p, s) (q, s')) (quiet : ¬ p.IsAsking) :
    s'.journal.eventTimes index = s.journal.eventTimes index := by
  rcases move.journal with same | ⟨e, grown, writes⟩
  · rw [same]
  · rw [grown, Journal.eventTimes_append]
    cases writes with
    | asked => exact absurd trivial quiet
    | _ => exact (congrArg _ (Journal.eventTimes_silent rfl index)).trans (List.append_nil _)

/-- A move that tells no handler of an event keeps the channel of a handler at rest. -/
theorem rests_move (directed : course.Directed watches t0) (registered : watches[index]? = some watch)
    (move : Move course (p, s) (q, s')) (quiet : ¬ p.IsAsking)
    (route : p.OnRoute course watches t0 s.monitor)
    (rests : p.Rests course.forward watch.2.window index times s.monitor) :
    q.Rests course.forward watch.2.window index times s'.monitor := by
  cases move with
  | «open» derivative fits watched observed =>
    obtain ⟨m, _, initialized, rfl⟩ := Session.onMonitor_ok.mp watched
    obtain ⟨_, _, _, rfl⟩ := Session.onObservers_ok.mp observed
    obtain ⟨_, _, rfl⟩ := Session.onTally_ok.mp derivative
    obtain rfl : times = [] := rests
    exact Monitor.rested_init (Monitor.keeps_init route.2 initialized) registered initialized
  | step taken =>
    obtain ⟨_, start, _, _, monitor⟩ := Course.nextLeg_ok taken
    rw [Stage.Rests, Window.ofStep, start, monitor]
    exact rests
  | clear scanned =>
    obtain ⟨covers, _⟩ := route
    exact (rests.congr (Course.scan_ok scanned).1).later covers.ahead.notAfter
  | locate scanned =>
    obtain ⟨_, kept⟩ := route
    exact ⟨rests.congr (Course.scan_ok scanned).1, rests.pending directed kept scanned⟩
  | cut truncated =>
    obtain ⟨covers, kept, reached, reported⟩ := route
    obtain ⟨_, _, stop, _, _⟩ := Window.truncate_ok truncated
    have first := reported _ List.mem_cons_self
    have ahead := (first.inside directed).1.trans_notAfter first.reached
    rw [Stage.Rests, stop]
    exact ⟨rests.1.later ahead.notAfter, rests.2⟩
  | ask watched => exact absurd trivial quiet
  | @answer cut o handler rest verdict action _ _ _ answered acknowledged =>
    obtain ⟨_, _, _, kept, _⟩ := route
    obtain ⟨time, pending, own⟩ := rests
    obtain ⟨_, _, rfl⟩ := Session.outside_ok.mp answered
    obtain ⟨m, _, marked, rfl⟩ := Session.onMonitor_ok.mp acknowledged
    have rested : m.Rested course.forward watch.2.window index times cut.piece.stop := by
      split at own
      · rename_i same
        subst same
        rw [← time]
        exact Monitor.rested_acknowledged kept registered own marked
      · rename_i different
        exact own.acknowledge different marked
    have nobody : Pending course.forward watch.2.window index times [] := ⟨.nil, fun _ mem => by cases mem⟩
    cases action with
    | carryOn | resetDerivatives => exact ⟨rested, pending⟩
    | resetState | stop => exact ⟨rested, nobody⟩
  | decide => exact rests.1
  | accept affordable => exact rests
  | tell told =>
    obtain ⟨_, _, _, rfl⟩ := Session.onObservers_ok.mp told
    exact rests
  | stop => trivial
  | replace reset fits =>
    obtain ⟨_, _, rfl⟩ := Session.outside_ok.mp reset
    exact rests
  | restart => exact rests
  | @refresh t y atEnd _ _ committed =>
    obtain ⟨_, _, moved, rfl⟩ := Session.onMonitor_ok.mp committed
    cases atEnd with
    | true => trivial
    | false => exact rests.commit moved
  | resume committed resumed =>
    obtain ⟨_, _, moved, rfl⟩ := Session.onMonitor_ok.mp committed
    have rested := rests.commit moved
    cases resumed with
    | ended whole last => trivial
    | stepping whole more => exact rested
    | scanning inner narrowed =>
      obtain ⟨_, start, _, _, _⟩ := Window.restrict_ok narrowed
      rw [Stage.Rests, start]
      exact rested

omit [Spacing Rat] in
/-- Telling a handler of an event that is due keeps its events apart. Only later members of the group
are still to be told, so the handler is not told of this event again. -/
theorem rests_ask {cut : Cut} {o : Occurrence Rat} {rest : List (Occurrence Rat)} {verdict : Verdict ω Rat}
    {channel : Channel ω Rat} (time : o.t = cut.piece.stop)
    (rests : (Stage.asking cut (o :: rest) verdict).Rests forward gap index times s.monitor)
    (apart : Apart forward gap times) :
    (Stage.awaiting cut o channel.handler rest verdict).Rests forward gap index
        (times ++ Journal.eventTimes [.asked o cut.piece.yStop] index) s.monitor ∧
      Apart forward gap (times ++ Journal.eventTimes [.asked o cut.piece.yStop] index) := by
  obtain ⟨rested, pending⟩ := rests
  obtain ⟨less, distinct⟩ := List.pairwise_cons.mp pending.distinct
  rw [Journal.eventTimes_asked]
  by_cases own : o.index = index
  · rw [if_pos own]
    refine ⟨⟨time, ⟨distinct, fun o' mem same => ?_⟩, ?_⟩, apart.concat (pending.due o List.mem_cons_self own)⟩
    · have later := less o' mem
      omega
    · rw [if_pos own]
      exact List.getLast?_concat
  · rw [if_neg own, List.append_nil]
    refine ⟨⟨time, ⟨distinct, fun o' mem => pending.due o' (List.mem_cons_of_mem _ mem)⟩, ?_⟩, apart⟩
    rw [if_neg own]
    exact rested

/-- Along a path of moves a run stays on its route, the channel of a handler rests, and the events of the handler stay
apart. -/
theorem rests_moves {y0 : State Rat} (directed : course.Directed watches t0)
    (registered : watches[index]? = some watch) (path : Moves course (.opening t0 y0, s) (q, s'))
    (created : s.monitor = Monitor.create watches) (empty : s.journal = []) :
    q.OnRoute course watches t0 s'.monitor ∧
      q.Rests course.forward watch.2.window index (s'.journal.eventTimes index) s'.monitor ∧
      Apart course.forward watch.2.window (s'.journal.eventTimes index) := by
  refine path.preserve
    (P := fun p u => p.OnRoute course watches t0 u.monitor ∧
      p.Rests course.forward watch.2.window index (u.journal.eventTimes index) u.monitor ∧
      Apart course.forward watch.2.window (u.journal.eventTimes index))
    (by rw [empty]; exact ⟨⟨rfl, congrArg Monitor.channels created⟩, rfl, .nil⟩)
    fun p u q u' ⟨route, rests, apart⟩ move => ?_
  refine ⟨onRoute_move directed move route, ?_⟩
  by_cases asking : p.IsAsking
  · cases move with
    | ask watched =>
      obtain ⟨_, _, _, reported⟩ := route
      rw [journal_noted, Journal.eventTimes_append]
      exact rests_ask (reported _ List.mem_cons_self).time rests apart
    | _ => exact asking.elim
  · rw [move.eventTimes asking]
    exact ⟨rests_move directed registered move asking route rests, apart⟩

/-- A run is refused, or any later event that a handler is told of in it lies strictly behind any
earlier one along the run, by more than the re-trigger window of the handler. -/
theorem Engine.integrate_apart {e e' : Engine ω Rat} (usable : e.Usable) {equation : Equation ω Rat}
    {target : Rat} {y0 : State Rat} {r : Except (Error Rat) (Rat × State Rat)} {w w' : ω}
    (ran : (Engine.integrate equation t0 y0 target).runFrom (e, w) = (r, e', w'))
    (registered : e.watches[index]? = some watch) :
    (∃ error, e.prepare equation t0 y0 target = .error error ∧ r = .error error) ∨
      (e'.journal.eventTimes index).Pairwise fun t1 t2 =>
        Precedes (decide (t0 < target)) t1 t2 ∧ watch.2.window < |t2 - t1| := by
  rcases integrate_run ran with ⟨refused, _⟩ | ⟨course, session, prepared, ran, journal, _⟩
  · exact Or.inl refused
  · obtain ⟨directed, _, _, _, _, forward_eq⟩ := prepare_ok usable prepared
    obtain ⟨_, _, path, same, _⟩ := run_path ran
    right
    rw [journal, same.journal, ← forward_eq]
    exact (rests_moves directed registered path rfl rfl).2.2

end

/-- Both events of a dip are reported, and they are farther apart than the window of the handler. -/
theorem Engine.dip_apart :
    letI := Spacing.gapless
    let e := Engine.timed 1 [(.dip (1 / 4) (3 / 4), ⟨some (1 / 4), 1 / 1000, 100, some (1 / 3)⟩)]
    let run := (Engine.integrate .steady 0 (.ofList [0]) 1).runFrom (e, ())
    run.2.1.journal.eventTimes 0 = [1 / 4, 3 / 4] ∧
      (run.2.1.journal.eventTimes 0).Pairwise fun t1 t2 => Precedes true t1 t2 ∧ 1 / 3 < |t2 - t1| := by
  let := Spacing.gapless
  intro e run
  have usable : e.Usable := usable_timed (by decide +kernel) (by decide +kernel)
  have returned : run.1 = .ok (1, .ofList [1 / 4]) := by decide +kernel
  have registered : e.watches[0]? = some (SwitchingFunction.toHandler (.dip (1 / 4) (3 / 4)),
      ⟨some (1 / 4), 1 / 1000, 100, some (1 / 3)⟩) := rfl
  refine ⟨by decide +kernel, ?_⟩
  rcases Engine.integrate_apart usable (Prod.ext rfl rfl) registered with ⟨_, _, failed⟩ | apart
  · cases returned.symm.trans failed
  · exact apart

end Trajectory
