import Mathlib.Tactic
import Trajectory.Proofs.Asking
import Trajectory.Proofs.Sized
import Trajectory.Proofs.Table
import Trajectory.Proofs.Timer

/-!
What a run makes of a group of events that it has found.

The members of the group are asked (`Heeds`), and the piece up to their time is handed over, with the state that the
dense output has there. Then the run goes on in one of five ways (`Course.GoesOn`): it is over, it takes up stepping at
the event, with the state that a handler supplies or with the one that it has, or it goes on with the step that it is in
or with the next one. At the target it is over in any case (`Course.Proceeds`).

A pass of a run that returns succeeds, so every scan that finds a group is followed by such a reaction
(`Course.Scans.reacts`), and the groups of the journal are those of the scans (`Course.locates_of_journal`).
`Engine.integrate_reacts` puts this together.
-/

namespace Trajectory

open Effect Session

variable {ω : Type}

theorem Monitor.Keeps.handlers_eq {watches : List (Handler ω Rat × Settings Rat)} {forward : Bool} {t : Rat}
    {y : State Rat} {m : Monitor ω Rat} (kept : m.Keeps watches forward t y) : m.handlers = watches.map Prod.fst := by
  rw [handlers, ← List.forall₂_eq_eq_eq, List.forall₂_map_left_iff, List.forall₂_map_right_iff]
  exact kept.channels.flip.imp fun _ _ keeps => keeps.handler

namespace Course

/-- The end of the next step from a time: a step size farther, or the target if that is not farther from there than the
slack. -/
def nextStop (course : Course ω Rat) (t : Rat) : Rat :=
  if runSign course.forward * (course.target - (t + course.h)) ≤ lastStepSlack * |course.h| then course.target
  else t + course.h

variable [Spacing Rat]

/-- A run that has come to a time and a state is over there, if it is at its target, and takes its next step from there
otherwise. -/
def Proceeds (course : Course ω Rat) (t0 : Rat) (y0 : State Rat) (s₀ : Session ω Rat) (t : Rat) (y : State Rat)
    (yp : Option (State Rat)) (s : Session ω Rat) : Prop :=
  if t = course.target then (course.run t0 y0).runFrom s₀ = (.ok (t, y), s)
  else course.Arrives t0 y0 s₀ (.stepping t y yp) s ∧
    ∃ leg s', (course.nextLeg t y yp).runFrom s = (.ok leg, s') ∧ leg.step.t = t ∧ leg.step.y = y ∧
      leg.step.tNext = course.nextStop t

/-- How a run goes on behind an event at a time and a state in a step, once members of a group have answered and the
piece up to the event has been handed over. -/
inductive GoesOn (course : Course ω Rat) (handlers : List (Handler ω Rat)) (t0 : Rat) (y0 : State Rat)
    (s₀ : Session ω Rat) (leg : Leg Rat) (t : Rat) (y : State Rat) (asked : List (Occurrence Rat × Action))
    (told : Session ω Rat) : Session ω Rat → Prop where
  /-- The last member stops the run. -/
  | stopped {o} (last : asked.getLast? = some (o, .stop))
      (ended : (course.run t0 y0).runFrom s₀ = (.ok (t, y), told.noted (.stopped t))) :
      GoesOn course handlers t0 y0 s₀ leg t y asked told (told.noted (.stopped t))
  /-- The last member replaces the state. -/
  | replaced {o handler z s s'} (last : asked.getLast? = some (o, .resetState))
      (registered : handlers[o.index]? = some handler)
      (supplied : (Session.outside (handler.resetState t y)).runFrom told = (.ok z, s))
      (accepted : course.equation.accepts z = true)
      (committed : (onMonitor (Monitor.commit t z)).runFrom (s.noted (.replaced o.index t z)) = (.ok (), s'))
      (proceeds : course.Proceeds t0 y0 s₀ t z none s') : GoesOn course handlers t0 y0 s₀ leg t y asked told s'
  /-- Nobody interrupts, and some member asks for a new start. -/
  | restarted {s'} (mild : ∀ a ∈ asked, a.2.interrupts = false) (renewing : ∃ a ∈ asked, a.2 = .resetDerivatives)
      (committed : (onMonitor (Monitor.commit t y)).runFrom told = (.ok (), s'))
      (proceeds : course.Proceeds t0 y0 s₀ t y none s') : GoesOn course handlers t0 y0 s₀ leg t y asked told s'
  /-- Everybody carries on, at the end of the step. -/
  | stepping {s'} (calm : ∀ a ∈ asked, a.2 = .carryOn) (whole : t = leg.step.tNext)
      (committed : (onMonitor (Monitor.commit t y)).runFrom told = (.ok (), s'))
      (proceeds : course.Proceeds t0 y0 s₀ t y (some leg.step.ypNext) s') :
      GoesOn course handlers t0 y0 s₀ leg t y asked told s'
  /-- Everybody carries on, inside the step. -/
  | scanning {rest s'} (calm : ∀ a ∈ asked, a.2 = .carryOn) (inner : t ≠ leg.step.tNext) (ahead : t ≠ course.target)
      (committed : (onMonitor (Monitor.commit t y)).runFrom told = (.ok (), s')) (step : rest.step = leg.step)
      (start : rest.start = t) (yStart : rest.yStart = y) (stop : rest.stop = leg.step.tNext)
      (arrives : course.Arrives t0 y0 s₀ (.scanning leg rest) s') :
      GoesOn course handlers t0 y0 s₀ leg t y asked told s'

/-- What a run does from a session after the scan of a window, which has found a group, to the end of its pass. -/
structure Reacts (course : Course ω Rat) (handlers : List (Handler ω Rat)) (t0 : Rat) (y0 : State Rat)
    (s₀ : Session ω Rat) (leg : Leg Rat) (window : Window Rat) (group : List (Occurrence Rat)) (s : Session ω Rat)
    (asked : List (Occurrence Rat × Action)) (piece : Window Rat) (told s' : Session ω Rat) : Prop where
  /-- The piece is that of the window up to the time that the members share. -/
  truncated : window.truncate piece.stop = .ok piece
  shared : ∀ o ∈ group, o.t = piece.stop
  ordered : group.Pairwise fun o o' => o.index < o'.index
  heeds : Heeds group asked
  /-- The members are asked, then the piece is handed over, and nothing else happens. -/
  handed : ∃ w last, Asked handlers piece.stop piece.yStop asked s.tally.world w ∧
    (Session.dispatch course piece last).runFrom
      ((s.noted (.located window group)).exchanged piece.stop piece.yStop asked w) = (.ok (), told)
  /-- The channels of the members that are asked are acknowledged, and no others. -/
  marked : told.monitor = s.monitor.dealt piece.stop (asked.map Prod.fst)
  goesOn : course.GoesOn handlers t0 y0 s₀ leg piece.stop piece.yStop asked told s'

/-- A scan of a run has found a group in a window. -/
def Locates (course : Course ω Rat) (t0 : Rat) (y0 : State Rat) (s₀ : Session ω Rat) (window : Window Rat)
    (group : List (Occurrence Rat)) : Prop :=
  ∃ leg s s', course.Scans t0 y0 s₀ leg window s ∧ (scan window).runFrom s = (.ok group, s') ∧ group ≠ []

/-- A pass of a run leads to the end of the run or to the next pass. -/
def Leads (course : Course ω Rat) (t0 : Rat) (y0 : State Rat) (s₀ : Session ω Rat) :
    Progress Rat → Session ω Rat → Prop
  | .finished t y, s => (course.run t0 y0).runFrom s₀ = (.ok (t, y), s)
  | .onward phase, s => course.Arrives t0 y0 s₀ phase s

section

variable {course : Course ω Rat} {t0 t : Rat} {y0 y : State Rat} {yp : Option (State Rat)} {s₀ s s' u : Session ω Rat}
  {phase : Phase Rat} {progress : Progress Rat} {leg : Leg Rat} {window : Window Rat} {group : List (Occurrence Rat)}
  {final : Rat × State Rat}

/-- The handover of a piece accepts it, and leaves the channels alone. -/
theorem dispatch_ok {piece : Window Rat} {last : Bool} (ran : (dispatch course piece last).runFrom s = (.ok (), u)) :
    u.journal = s.journal ++ [.accepted piece last] ∧ u.monitor = s.monitor := by
  rw [runFrom_dispatch] at ran
  split at ran
  · cases ran
  · obtain ⟨_, entries⟩ := deliver_ok ran
    refine ⟨by rw [journal, entries, List.reverse_cons]; rfl, ?_⟩
    simp only [deliver, runFrom_bind_ok] at ran
    obtain ⟨_, _, counted, _, _, noted, heard⟩ := ran
    cases counted
    cases noted
    obtain ⟨_, _, _, rfl⟩ := onObservers_ok.mp heard
    rfl

theorem GoesOn.groups {handlers : List (Handler ω Rat)} {asked : List (Occurrence Rat × Action)}
    (goes : course.GoesOn handlers t0 y0 s₀ leg t y asked s u) : u.journal.groups = s.journal.groups := by
  cases goes with
  | stopped => rw [journal_noted, Journal.groups_silent rfl]
  | replaced _ _ supplied _ committed =>
    rw [(sameAccount_onMonitor committed).journal, journal_noted, Journal.groups_silent rfl,
      (sameAccount_onTally supplied).journal]
  | restarted _ _ committed | stepping _ _ committed | scanning _ _ _ committed =>
    rw [(sameAccount_onMonitor committed).journal]

theorem Reacts.groups {handlers : List (Handler ω Rat)} {asked : List (Occurrence Rat × Action)} {piece : Window Rat}
    {told v : Session ω Rat} (reacts : course.Reacts handlers t0 y0 s₀ leg window group u asked piece told v) :
    v.journal.groups = u.journal.groups ++ [(window, group)] := by
  obtain ⟨_, _, _, dispatched⟩ := reacts.handed
  have silent : (Journal.exchange piece.yStop asked).groups = [] := by
    simp [Journal.groups, Journal.exchange, List.filterMap_flatMap, Entry.group?]
  rw [reacts.goesOn.groups, (dispatch_ok dispatched).1, Journal.groups_silent rfl, journal_exchanged,
    Journal.groups_append, silent, List.append_nil, journal_noted, Journal.groups_append]
  rfl

theorem Scans.treating (scans : course.Scans t0 y0 s₀ leg window s) :
    ∃ phase s₁, course.Arrives t0 y0 s₀ phase s₁ ∧
      (course.pass phase).runFrom s₁ = (scan window >>= course.treat leg window).runFrom s := by
  obtain ⟨phase, s₁, arrives, same⟩ := scans.pass
  exact ⟨phase, s₁, arrives, by rw [same, ← survey_eq, pass_scanning]⟩

variable (fresh : s₀.accepted = 0)

include fresh

theorem Arrives.leads (arrives : course.Arrives t0 y0 s₀ phase s)
    (passed : (course.pass phase).runFrom s = (.ok progress, s')) : course.Leads t0 y0 s₀ progress s' := by
  cases progress with
  | finished t y => exact (arrives.ends fresh).2 t y passed
  | onward next => exact .next arrives passed

theorem Scans.leads (scans : course.Scans t0 y0 s₀ leg window s)
    (scanned : (scan window).runFrom s = (.ok group, u))
    (treated : (course.treat leg window group).runFrom u = (.ok progress, s')) : course.Leads t0 y0 s₀ progress s' := by
  obtain ⟨_, _, arrives, same⟩ := scans.treating
  exact arrives.leads fresh (same.trans (runFrom_bind_ok.mpr ⟨group, u, scanned, treated⟩))

variable (returned : (course.run t0 y0).runFrom s₀ = (.ok final, s'))

include returned

/-- The passes of a run that returns succeed. -/
theorem Arrives.succeeds (arrives : course.Arrives t0 y0 s₀ phase s) :
    ∃ progress s₁, (course.pass phase).runFrom s = (.ok progress, s₁) := by
  rcases passed : (course.pass phase).runFrom s with ⟨e | progress, s₁⟩
  · cases returned.symm.trans ((arrives.ends fresh).1 e passed)
  · exact ⟨progress, s₁, rfl⟩

theorem Scans.treated (scans : course.Scans t0 y0 s₀ leg window s)
    (scanned : (scan window).runFrom s = (.ok group, u)) :
    ∃ progress s₁, (course.treat leg window group).runFrom u = (.ok progress, s₁) := by
  obtain ⟨_, _, arrives, same⟩ := scans.treating
  obtain ⟨progress, s₁, passed⟩ := arrives.succeeds fresh returned
  rw [same, runFrom_bind, scanned] at passed
  exact ⟨progress, s₁, passed⟩

/-- A run that is about to take a step, and returns, takes it. -/
theorem Arrives.proceeds (arrives : course.Arrives t0 y0 s₀ (.stepping t y yp) s) (ahead : t ≠ course.target) :
    course.Proceeds t0 y0 s₀ t y yp s := by
  obtain ⟨_, _, passed⟩ := arrives.succeeds fresh returned
  rw [pass_stepping] at passed
  obtain ⟨leg, s₁, taken, _⟩ := runFrom_bind_ok.mp passed
  obtain ⟨_, start, yStart, stop, _⟩ := nextLeg_ok taken
  rw [Proceeds, if_neg ahead]
  refine ⟨arrives, leg, s₁, taken, start, yStart, ?_⟩
  simpa only [isLast, nextStop, Scalar.abs_rat, decide_eq_true_eq] using stop

/-- A run that starts afresh from a state commits its channels to it, and proceeds from there. -/
theorem restart_proceeds {v : Session ω Rat} {atEnd : Bool}
    (place : if atEnd then t = course.target else Precedes course.forward t course.target)
    (ran : (restart t y atEnd).runFrom s = (.ok progress, v)) (leads : course.Leads t0 y0 s₀ progress v) :
    (onMonitor (Monitor.commit t y)).runFrom s = (.ok (), v) ∧ course.Proceeds t0 y0 s₀ t y none v := by
  obtain ⟨_, _, committed, left⟩ := runFrom_bind_ok.mp ran
  cases atEnd with
  | true =>
    cases left
    exact ⟨committed, (if_pos place).mpr leads⟩
  | false =>
    cases left
    exact ⟨committed, Arrives.proceeds fresh returned leads place.ne⟩

variable {handlers : List (Handler ω Rat)} {asked : List (Occurrence Rat × Action)} {cut : Cut} {told v : Session ω Rat}

/-- If everybody carries on, the run goes on with the rest of its step, or with the next step. -/
theorem carryOn_goesOn (fits : cut.Fits course t0) (calm : ∀ a ∈ asked, a.2 = .carryOn)
    (resumed : (course.resume cut.leg cut.window cut.piece.stop cut.piece.yStop cut.atEnd .carryOn).runFrom told =
      (.ok progress, v)) (leads : course.Leads t0 y0 s₀ progress v) :
    course.GoesOn handlers t0 y0 s₀ cut.leg cut.piece.stop cut.piece.yStop asked told v := by
  simp only [resume, runFrom_bind_ok] at resumed
  obtain ⟨_, _, committed, left⟩ := resumed
  have covers := fits.covers
  rw [covers.stop] at left
  by_cases whole : cut.piece.stop = cut.leg.step.tNext
  · rw [if_pos (beq_iff_eq.mpr whole)] at left
    cases last : cut.leg.last with
    | true =>
      rw [last] at left
      cases left
      exact .stepping calm whole committed ((if_pos (whole.trans (covers.last last))).mpr leads)
    | false =>
      rw [last] at left
      cases left
      have ahead := covers.more last
      rw [← whole] at ahead
      exact .stepping calm whole committed (Arrives.proceeds fresh returned leads ahead.ne)
  · rw [if_neg (mt beq_iff_eq.mp whole), runFrom_bind_ok] at left
    obtain ⟨rest, _, narrowed, left⟩ := left
    obtain ⟨restricted, rfl⟩ := runFrom_lift_iff.mp narrowed
    cases left
    obtain ⟨step, start, stop, yStart, _⟩ := Window.restrict_ok restricted
    have reached := fits.reached
    rw [covers.stop] at reached
    have ahead := (reached.precedes_of_ne whole).trans_notAfter (covers.stop ▸ covers.stop_notAfter)
    exact .scanning calm whole ahead.ne committed (step.trans covers.step) start (fits.yStop _ yStart) stop leads

/-- What a run does after a group of events is what the answers ask for. -/
theorem resume_goesOn {w w' : ω} (fits : cut.Fits course t0) (heeds : Heeds group asked)
    (exchange : Asked handlers cut.piece.stop cut.piece.yStop asked w w')
    (resumed : (course.resume cut.leg cut.window cut.piece.stop cut.piece.yStop cut.atEnd
      (asked.foldl (Verdict.hear handlers) .carryOn)).runFrom told = (.ok progress, v))
    (leads : course.Leads t0 y0 s₀ progress v) :
    course.GoesOn handlers t0 y0 s₀ cut.leg cut.piece.stop cut.piece.yStop asked told v := by
  rcases heeds.decides exchange with ⟨o, last, decided⟩ | ⟨o, handler, last, registered, decided⟩ | ⟨mild, decided⟩
  · rw [decided] at resumed
    cases resumed
    exact .stopped last leads
  · rw [decided] at resumed
    simp only [resume, runFrom_bind_ok] at resumed
    obtain ⟨z, _, supplied, _, _, sized, _, _, noted, restarted⟩ := resumed
    obtain ⟨fit, rfl⟩ := runFrom_lift_iff.mp sized
    cases noted
    obtain ⟨committed, proceeds⟩ := restart_proceeds fresh returned fits.atEnd restarted leads
    exact .replaced last registered supplied (Equation.requireSize_ok.mp fit) committed proceeds
  · by_cases renewing : ∃ a ∈ asked, a.2 = .resetDerivatives
    · rw [decided, if_pos renewing] at resumed
      obtain ⟨committed, proceeds⟩ := restart_proceeds fresh returned fits.atEnd resumed leads
      exact .restarted mild renewing committed proceeds
    · rw [decided, if_neg renewing] at resumed
      refine carryOn_goesOn fresh returned fits (fun a mem => ?_) resumed leads
      have goes := mild a mem
      cases action : a.2 with
      | carryOn => rfl
      | resetDerivatives => exact absurd ⟨a, mem, action⟩ renewing
      | stop | resetState =>
        rw [action] at goes
        cases goes

variable {watches : List (Handler ω Rat × Settings Rat)} (directed : course.Directed watches t0)
  (created : s₀.monitor = Monitor.create watches)

include directed created

/-- A run that returns reacts to every group that a scan finds. -/
theorem Scans.reacts {v : Session ω Rat} (scans : course.Scans t0 y0 s₀ leg window s)
    (scanned : (scan window).runFrom s = (.ok group, u)) (nonempty : group ≠ [])
    (treated : (course.treat leg window group).runFrom u = (.ok progress, v)) :
    ∃ asked piece told, course.Reacts (watches.map Prod.fst) t0 y0 s₀ leg window group u asked piece told v := by
  obtain ⟨covers, kept⟩ := onRoute_moves directed scans.moves ⟨rfl, congrArg Monitor.channels created⟩
  obtain ⟨channels, direction, _⟩ := scan_ok scanned
  have handlers := (kept.congr channels direction).handlers_eq
  have found := found_of_scan scanned
  have leads := scans.leads fresh scanned treated
  cases group with
  | nil => exact absurd rfl nonempty
  | cons first rest =>
    have reported := kept.reported found List.mem_cons_self first List.mem_cons_self
    have ahead := (reported.inside directed).1.trans_notAfter reported.reached
    have reached := kept.event_reached directed found List.mem_cons_self
    rw [treat, runFrom_bind, runFrom_note, react_eq] at treated
    simp only [reacting, bind_assoc, pure_bind, handOver, runFrom_bind_ok] at treated
    obtain ⟨piece, _, truncated, verdict, _, consulted, _, told, dispatched, resumed⟩ := treated
    obtain ⟨cut, rfl⟩ := runFrom_lift_iff.mp truncated
    have fits := Cut.fits_truncate covers ahead reached cut
    obtain ⟨_, _, stop, _, _⟩ := Window.truncate_ok cut
    have times : ∀ o ∈ first :: rest, o.t = first.t := fun o mem => (found.shared first List.mem_cons_self o mem).1
    rw [← stop] at times cut consulted resumed
    obtain ⟨asked, w, exchange, heeds, rfl, rfl⟩ := consult_ok times consulted
    have same : (u.noted (.located window (first :: rest))).monitor.handlers = watches.map Prod.fst := handlers
    rw [same] at exchange resumed
    exact ⟨asked, piece, told, cut, times, found.ordered, heeds, ⟨w, _, exchange, dispatched⟩,
      (dispatch_ok dispatched).2, resume_goesOn fresh returned fits heeds exchange resumed leads⟩

/-- A pass finds no group but that of its scan. -/
theorem Scans.locates {v : Session ω Rat} (scans : course.Scans t0 y0 s₀ leg window s)
    (treated : (scan window >>= course.treat leg window).runFrom s = (.ok progress, v)) :
    ∀ located ∈ v.journal.groups, located ∈ s.journal.groups ∨ course.Locates t0 y0 s₀ located.1 located.2 := by
  obtain ⟨group, u, scanned, treated⟩ := runFrom_bind_ok.mp treated
  have same := (sameAccount_scan scanned).journal
  intro located mem
  cases group with
  | nil =>
    simp only [treat, settle, runFrom_bind_ok] at treated
    obtain ⟨_, _, dispatched, _, u₁, committed, left⟩ := treated
    obtain rfl : u₁ = v := by
      split at left
      · exact congrArg Prod.snd left
      · exact congrArg Prod.snd left
    rw [(sameAccount_onMonitor committed).journal, (dispatch_ok dispatched).1, Journal.groups_silent rfl, same] at mem
    exact Or.inl mem
  | cons first rest =>
    obtain ⟨_, _, _, reacts⟩ := scans.reacts fresh returned directed created scanned (List.cons_ne_nil _ _) treated
    rw [reacts.groups, same] at mem
    refine (List.mem_append.mp mem).imp_right fun new => ?_
    rw [List.mem_singleton.mp new]
    exact ⟨leg, s, u, scans, scanned, List.cons_ne_nil _ _⟩

theorem Arrives.locates {v : Session ω Rat} (arrives : course.Arrives t0 y0 s₀ phase s)
    (passed : (course.pass phase).runFrom s = (.ok progress, v)) :
    ∀ located ∈ v.journal.groups, located ∈ s.journal.groups ∨ course.Locates t0 y0 s₀ located.1 located.2 := by
  cases phase with
  | scanning leg window =>
    rw [pass_scanning] at passed
    exact Scans.locates fresh returned directed created (.left arrives) passed
  | stepping t y yp =>
    rw [pass_stepping] at passed
    obtain ⟨leg, u, taken, passed⟩ := runFrom_bind_ok.mp passed
    rw [← (sameAccount_nextLeg taken).journal]
    exact Scans.locates fresh returned directed created (.fresh arrives taken) passed

/-- Every group that the journal of a run that returns has was found by a scan. -/
theorem locates_of_journal (empty : s₀.journal = []) :
    ∀ located ∈ s'.journal.groups, course.Locates t0 y0 s₀ located.1 located.2 := by
  have between {phase : Phase Rat} {s : Session ω Rat} (arrives : course.Arrives t0 y0 s₀ phase s) :
      ∀ located ∈ s.journal.groups, course.Locates t0 y0 s₀ located.1 located.2 := by
    induction arrives with
    | first begun =>
      have same := (course.leaves_begin t0 y0).eq begun
      rw [Prod.mk.injEq] at same
      rw [Session.journal, same.2, ← Session.journal, empty]
      exact fun _ mem => absurd mem List.not_mem_nil
    | next earlier passed ih =>
      intro located mem
      exact (earlier.locates fresh returned directed created passed located mem).elim (ih located) id
  cases (run_ends fresh).mp returned with
  | finished arrives passed =>
    intro located mem
    exact (arrives.locates fresh returned directed created passed located mem).elim (between arrives located) id

end

end Course

namespace Engine

variable [Spacing Rat] {e e' : Engine ω Rat} {equation : Equation ω Rat} {t0 target : Rat} {y0 : State Rat}
  {final : Rat × State Rat} {w w' : ω}

/-- A run that returns reacts to every group that it finds, and these are the groups of its journal. -/
theorem integrate_reacts (usable : e.Usable)
    (ran : (integrate equation t0 y0 target).runFrom (e, w) = (.ok final, e', w')) :
    ∃ course, e.prepare equation t0 y0 target = .ok course ∧
      let start := Session.start w (Monitor.create e.watches) e.observers
      (∃ s, (course.run t0 y0).runFrom start = (.ok final, s)) ∧
      (∀ leg window group s u, course.Scans t0 y0 start leg window s → (Course.scan window).runFrom s = (.ok group, u) →
        group ≠ [] → ∃ asked piece told s',
          course.Reacts (e.watches.map Prod.fst) t0 y0 start leg window group u asked piece told s') ∧
      ∀ window group, (window, group) ∈ e'.journal.groups → course.Locates t0 y0 start window group := by
  obtain ⟨course, s', prepared, returned, rfl, _⟩ := integrate_ok ran
  obtain ⟨directed, _⟩ := prepare_ok usable prepared
  refine ⟨course, prepared, ⟨s', returned⟩, fun leg window group s u scans scanned nonempty => ?_,
    fun window group mem => ?_⟩
  · obtain ⟨_, s', treated⟩ := scans.treated rfl returned scanned
    obtain ⟨asked, piece, told, reacts⟩ := scans.reacts rfl returned directed rfl scanned nonempty treated
    exact ⟨asked, piece, told, s', reacts⟩
  · exact Course.locates_of_journal rfl returned directed rfl rfl _ mem

end Engine

/-- Timers with one time and all four answers. -/
def Engine.quartet : Engine Unit Rat :=
  let usual : Settings Rat := ⟨none, 1 / 100, 100, none⟩
  .timed 1 [(.timer (1 / 2) .carryOn (.ofList [0]), usual), (.timer (1 / 2) .resetDerivatives (.ofList [0]), usual),
    (.timer (1 / 2) .resetState (.ofList [5]), usual), (.timer (1 / 2) .stop (.ofList [0]), usual)]

/-- The third timer replaces the state, and the fourth one is not asked. -/
theorem Engine.quartet_reacts :
    letI := Spacing.gapless
    let o (index : Nat) : Occurrence Rat := ⟨index, 1 / 2, 1 / 2, true⟩
    let run := (Engine.integrate .steady 0 (.ofList [0]) 1).runFrom (Engine.quartet, ())
    run.1 = .ok (1, .ofList [11 / 2]) ∧ ∃ course leg group u piece told s',
      Engine.quartet.prepare .steady 0 (.ofList [0]) 1 = .ok course ∧ group = [o 0, o 1, o 2, o 3] ∧
      course.Reacts (Engine.quartet.watches.map Prod.fst) 0 (.ofList [0])
        (Session.start () (Monitor.create Engine.quartet.watches) []) leg (.ofStep .steady) group u
        [(o 0, .carryOn), (o 1, .resetDerivatives), (o 2, .resetState)] piece told s' := by
  let := Spacing.gapless
  intro o run
  have usable : Engine.quartet.Usable := usable_timed (by decide +kernel) (by decide +kernel)
  have returned : run.1 = .ok (1, .ofList [11 / 2]) := by decide +kernel
  obtain ⟨course, prepared, _, reaction, found⟩ := Engine.integrate_reacts usable (Prod.ext returned rfl)
  obtain ⟨leg, s, u, scans, scanned, nonempty⟩ := found (.ofStep .steady) [o 0, o 1, o 2, o 3] (by decide +kernel)
  obtain ⟨asked, piece, told, s', reacts⟩ := reaction _ _ _ _ _ scans scanned nonempty
  let heard : List (Occurrence Rat × Action) := [(o 0, .carryOn), (o 1, .resetDerivatives), (o 2, .resetState)]
  have heeds : Heeds [o 0, o 1, o 2, o 3] heard := by
    refine ⟨⟨[o 3], rfl⟩, by simp [heard, Action.interrupts], fun mild => ?_⟩
    cases mild (o 2, .resetState) (by simp [heard])
  obtain ⟨_, _, exchange, _⟩ := reacts.handed
  obtain rfl : asked = heard := by
    refine reacts.heeds.unique heeds fun a mem a' mem' same => ?_
    obtain ⟨handler, registered, answered⟩ := exchange.registered mem
    rw [same] at registered answered
    simp only [heard, List.mem_cons, List.not_mem_nil, or_false] at mem'
    rcases mem' with rfl | rfl | rfl
    all_goals
      cases registered
      exact Effect.eq_of_returns_pure answered
  exact ⟨returned, course, leg, _, u, piece, told, s', prepared, rfl, reacts⟩

end Trajectory
