import Mathlib.Tactic
import Trajectory.Proofs.Outcome
import Trajectory.Proofs.Window
import Trajectory.Run.Engine

/-!
The acceptance of a piece, as the one point of a pass at which the observers and the budget matter.

A pass makes its way to a piece (`Course.approach`), hands it over, and goes on from there
(`Course.pass_eq`). What comes before and after the handover leaves the observers and the count of
pieces alone (`Session.Idle`), and a pass that is not the last one hands over a piece that is not the
last one, from whose end the next pass goes on (`Handover.Fits`). None of this depends on the scalars.
-/

namespace Trajectory

variable {ω α β γ : Type}

/-- A session after a part of a run in which no piece has been accepted. -/
structure Session.Idle (s s' : Session ω α) : Prop where
  accepted : s'.accepted = s.accepted
  observers : s'.observers = s.observers
  entries : ∃ new, s'.latestEntries = new ++ s.latestEntries ∧ new.filterMap Entry.piece? = []

/-- A computation that accepts no piece. -/
def Effect.Idle (x : Effect (Session ω α) α β) : Prop := ∀ s r s', x.runFrom s = (r, s') → s.Idle s'

theorem Session.Idle.refl (s : Session ω α) : s.Idle s := ⟨rfl, rfl, [], rfl, rfl⟩

theorem Session.Idle.trans {s s' s'' : Session ω α} (first : s.Idle s') (second : s'.Idle s'') : s.Idle s'' := by
  obtain ⟨new, entries, unaccepted⟩ := first.entries
  obtain ⟨new', entries', unaccepted'⟩ := second.entries
  constructor
  · exact second.accepted.trans first.accepted
  · exact second.observers.trans first.observers
  · exact ⟨new' ++ new, by rw [entries', entries, List.append_assoc], by simp [unaccepted, unaccepted']⟩

namespace Effect

theorem idle_pure (b : β) : (pure b : Effect (Session ω α) α β).Idle := by
  intro s r s' ran
  cases ran
  exact .refl s

theorem idle_throw (e : Error α) : (throw e : Effect (Session ω α) α β).Idle := by
  intro s r s' ran
  cases ran
  exact .refl s

theorem idle_lift (x : Except (Error α) β) : (liftM x : Effect (Session ω α) α β).Idle := by
  intro s r s' ran
  rw [(runFrom_lift_iff.mp ran).2]
  exact .refl s

theorem idle_get : (get : Effect (Session ω α) α (Session ω α)).Idle := by
  intro s r s' ran
  cases ran
  exact .refl s

theorem idle_bind {x : Effect (Session ω α) α β} {f : β → Effect (Session ω α) α γ} (first : x.Idle)
    (rest : ∀ b, (f b).Idle) : (x >>= f).Idle := by
  intro s r s'' ran
  cases r with
  | ok c =>
    obtain ⟨b, s', ranX, ranF⟩ := runFrom_bind_ok.mp ran
    exact (first s _ s' ranX).trans (rest b s' _ s'' ranF)
  | error e =>
    rcases runFrom_bind_error.mp ran with ranX | ⟨b, s', ranX, ranF⟩
    · exact first s _ s'' ranX
    · exact (first s _ s' ranX).trans (rest b s' _ s'' ranF)

theorem idle_onTally (x : Effect (Tally ω) α β) : (Session.onTally x).Idle := by
  intro s r s' ran
  cases ran
  exact ⟨rfl, rfl, [], rfl, rfl⟩

theorem idle_onMonitor (x : Effect (Monitor ω α × ω) α β) : (Session.onMonitor x).Idle := by
  intro s r s' ran
  cases ran
  exact ⟨rfl, rfl, [], rfl, rfl⟩

theorem idle_note {e : Entry α} (other : e.piece? = none) : (Session.note e : Effect (Session ω α) α Unit).Idle := by
  intro s r s' ran
  cases ran
  exact ⟨rfl, rfl, [e], rfl, by simp [other]⟩

end Effect

open Effect

/-- The time at which a run stands between two passes. -/
def Phase.time : Phase α → α
  | .stepping t _ _ => t
  | .scanning _ window => window.start

/-- A window that is left to scan reaches to the end of its step. -/
def Phase.Whole : Phase α → Prop
  | .stepping _ _ _ => True
  | .scanning leg window => window.stop = leg.step.tNext

/-- A piece that a pass is about to hand over, and what the pass does after that. -/
structure Handover (ω α : Type) where
  piece : Window α
  last : Bool
  rest : Effect (Session ω α) α (Progress α)

/-- A handover in a pass that stands at a phase: the piece begins there; if the run goes on, the piece is
not the last one, and the run goes on from its end. -/
structure Handover.Fits (phase : Phase α) (h : Handover ω α) : Prop where
  start : h.piece.start = phase.time
  idle : h.rest.Idle
  onward : ∀ s next s', h.rest.runFrom s = (.ok (.onward next), s') →
    h.last = false ∧ next.time = h.piece.stop ∧ next.Whole

theorem Course.idle_consult (t : α) (y : State α) (group : List (Occurrence α)) (verdict : Verdict ω α) :
    (consult t y group verdict).Idle := by
  induction group generalizing verdict with
  | nil => exact idle_pure verdict
  | cons o rest ih =>
    unfold consult
    apply idle_bind idle_get
    intro s
    split
    · apply idle_bind (idle_note rfl)
      intro _
      apply idle_bind (idle_onTally _)
      intro action
      apply idle_bind (idle_note rfl)
      intro _
      apply idle_bind (idle_onMonitor _)
      intro _
      cases action with
      | stop => exact idle_pure _
      | resetState => exact idle_pure _
      | resetDerivatives => exact ih .restart
      | carryOn => exact ih verdict
    · exact idle_throw _

variable [Scalar α]

theorem Stepper.advance_start {stepper : Stepper} {f : Rate ω α} {t h : α} {y : State α}
    {yp : Option (State α)} {u u' : Tally ω} {step : Step α}
    (taken : (stepper.advance f t y h yp).runFrom u = (.ok step, u')) : step.t = t := by
  rw [Stepper.advance, runFrom_bind_ok] at taken
  obtain ⟨size, _, _, taken⟩ := taken
  cases yp with
  | some yp =>
    simp only [runFrom_bind_ok] at taken
    obtain ⟨_, _, _, _, _, _, _, _, _, same⟩ := taken
    cases same
    rfl
  | none =>
    simp only [runFrom_bind_ok] at taken
    obtain ⟨_, _, _, _, _, _, _, _, _, same⟩ := taken
    cases same
    rfl

/-- Accepts a piece and hands it to the observers. -/
def Session.deliver [Spacing α] (piece : Window α) (last : Bool) : Effect (Session ω α) α Unit := do
  modify fun s => { s with accepted := s.accepted + 1 }
  note (.accepted piece last)
  onObservers (forEach (Observer.accept piece last))

theorem Session.runFrom_dispatch [Spacing α] (course : Course ω α) (piece : Window α) (last : Bool)
    (s : Session ω α) :
    (dispatch course piece last).runFrom s =
      if course.budget ≤ s.accepted then (.error (.stepsExhausted course.budget piece.start course.target), s)
      else (deliver piece last).runFrom s := by
  rw [dispatch, runFrom_bind, runFrom_get]
  dsimp only
  split
  · rfl
  · rfl

/-- What a run does before its first step: the initial derivative is evaluated, and the handlers and
the observers hear of the start. -/
def Course.begin (course : Course ω α) (t : α) (y : State α) : Effect (Session ω α) α (State α) := do
  let yp ← Session.onTally (course.equation.call t y)
  course.equation.requireSize .derivative yp
  Session.onMonitor (Monitor.init t y course.target)
  Session.onObservers (forEach (Observer.start t y course.target))
  pure yp

/-- A handover that the budget allows. -/
def Handover.perform [Spacing α] (h : Handover ω α) : Effect (Session ω α) α (Progress α) := do
  Session.deliver h.piece h.last
  h.rest

namespace Course

theorem idle_restart (t : α) (y : State α) (atEnd : Bool) : (restart t y atEnd : Effect (Session ω α) α _).Idle := by
  apply idle_bind (idle_onMonitor _)
  intro _
  cases atEnd
  · exact idle_pure _
  · exact idle_pure _

/-- A run that starts afresh does so where it stands, and before the target. -/
theorem restart_onward {t : α} {y : State α} {atEnd : Bool} {s s' : Session ω α} {next : Phase α}
    (ran : (restart t y atEnd).runFrom s = (.ok (.onward next), s')) :
    atEnd = false ∧ next.time = t ∧ next.Whole := by
  obtain ⟨_, _, _, left⟩ := runFrom_bind_ok.mp ran
  cases atEnd with
  | true => cases left
  | false =>
    cases left
    exact ⟨rfl, rfl, trivial⟩

/-- A run begins and then makes its passes. -/
theorem run_eq [Spacing α] (course : Course ω α) (t : α) (y : State α) :
    course.run t y = course.begin t y >>= fun yp => course.passes (course.budget + 1) (.stepping t y (some yp)) := by
  simp only [run, Course.begin, bind_assoc, pure_bind]

variable [Spacing α]

/-- The handover of what is left of a step in which no event lies. -/
def settling (leg : Leg α) (window : Window α) : Handover ω α where
  piece := window
  last := leg.last
  rest := do
    Session.onMonitor (Monitor.commit window.stop window.yStop)
    if leg.last then return .finished window.stop window.yStop
    else return .onward (.stepping window.stop window.yStop (some leg.step.ypNext))

/-- What a run does after a group of events, given what its members have decided. -/
def resume (course : Course ω α) (leg : Leg α) (window : Window α) (t : α) (y : State α) (atEnd : Bool) :
    Verdict ω α → Effect (Session ω α) α (Progress α)
  | .stop => do
    Session.note (.stopped t)
    return .finished t y
  | .replace index handler => do
    let y ← Session.outside (handler.resetState t y)
    course.equation.requireSize .resetState y
    Session.note (.replaced index t y)
    restart t y atEnd
  | .restart => restart t y atEnd
  | .carryOn => do
    Session.onMonitor (Monitor.commit t y)
    if t == window.stop then
      if leg.last then return .finished t y
      else return .onward (.stepping t y (some leg.step.ypNext))
    else
      let rest ← window.restrict t window.stop
      return .onward (.scanning leg rest)

/-- The way of a pass to the handover of the piece before a group of events. -/
def reacting (course : Course ω α) (leg : Leg α) (window : Window α) (t : α) (group : List (Occurrence α)) :
    Effect (Session ω α) α (Handover ω α) := do
  let piece ← window.truncate t
  let verdict ← consult t piece.yStop group .carryOn
  let atEnd := leg.last && t == leg.step.tNext
  return ⟨piece, verdict.isStop || atEnd, course.resume leg window t piece.yStop atEnd verdict⟩

/-- The way of a pass through a window to the handover of its piece. -/
def survey (course : Course ω α) (leg : Leg α) (window : Window α) : Effect (Session ω α) α (Handover ω α) := do
  match ← scan window with
  | [] => return settling leg window
  | first :: rest => do
    Session.note (.located window (first :: rest))
    course.reacting leg window first.t (first :: rest)

/-- The way of a pass to the handover of its piece. -/
def approach (course : Course ω α) : Phase α → Effect (Session ω α) α (Handover ω α)
  | .stepping t y yp => do
    let leg ← course.nextLeg t y yp
    course.survey leg (.ofStep leg.step)
  | .scanning leg window => course.survey leg window

/-- The handover of a piece if the budget allows it, and what the pass does after it. -/
def handOver (course : Course ω α) (h : Handover ω α) : Effect (Session ω α) α (Progress α) := do
  Session.dispatch course h.piece h.last
  h.rest

theorem runFrom_handOver (course : Course ω α) (h : Handover ω α) (s : Session ω α) :
    (course.handOver h).runFrom s =
      if course.budget ≤ s.accepted then (.error (.stepsExhausted course.budget h.piece.start course.target), s)
      else h.perform.runFrom s := by
  rw [handOver, runFrom_bind, Session.runFrom_dispatch]
  by_cases spent : course.budget ≤ s.accepted
  · rw [if_pos spent, if_pos spent]
  · rw [if_neg spent, if_neg spent, Handover.perform, runFrom_bind]

theorem react_eq (course : Course ω α) (leg : Leg α) (window : Window α) (t : α) (group : List (Occurrence α)) :
    course.react leg window t group = course.reacting leg window t group >>= course.handOver := by
  simp only [react, reacting, bind_assoc, pure_bind, handOver]
  rfl

theorem survey_eq (course : Course ω α) (leg : Leg α) (window : Window α) :
    course.pass (.scanning leg window) = course.survey leg window >>= course.handOver := by
  rw [survey, bind_assoc]
  change scan window >>= _ = _
  congr 1
  funext group
  cases group with
  | nil => rfl
  | cons first rest =>
    rw [bind_assoc]
    exact congrArg (Session.note (.located window (first :: rest)) >>= ·)
      (funext fun _ => course.react_eq leg window first.t (first :: rest))

/-- A pass makes its way to a piece, hands it over, and goes on from there. -/
theorem pass_eq (course : Course ω α) (phase : Phase α) :
    course.pass phase = course.approach phase >>= course.handOver := by
  cases phase with
  | scanning leg window => exact course.survey_eq leg window
  | stepping t y yp =>
    rw [approach, bind_assoc]
    exact congrArg (course.nextLeg t y yp >>= ·) (funext fun leg => course.survey_eq leg (.ofStep leg.step))

omit [Spacing α] in
theorem fits_settling {leg : Leg α} {window : Window α} {phase : Phase α} (start : window.start = phase.time) :
    (settling leg window : Handover ω α).Fits phase := by
  constructor
  · exact start
  · apply idle_bind (idle_onMonitor _)
    intro _
    cases leg.last
    · exact idle_pure _
    · exact idle_pure _
  · intro s next s' ran
    obtain ⟨_, _, _, left⟩ := runFrom_bind_ok.mp ran
    cases more : leg.last with
    | true =>
      rw [more] at left
      cases left
    | false =>
      rw [more] at left
      cases left
      exact ⟨more, rfl, trivial⟩

theorem idle_resume (course : Course ω α) (leg : Leg α) (window : Window α) (t : α) (y : State α) (atEnd : Bool)
    (verdict : Verdict ω α) : (course.resume leg window t y atEnd verdict).Idle := by
  cases verdict with
  | stop => exact idle_bind (idle_note rfl) fun _ => idle_pure _
  | replace index handler =>
    apply idle_bind (idle_onTally _)
    intro y
    apply idle_bind (idle_lift _)
    intro _
    exact idle_bind (idle_note rfl) fun _ => idle_restart t y atEnd
  | restart => exact idle_restart t y atEnd
  | carryOn =>
    apply idle_bind (idle_onMonitor _)
    intro _
    split
    · split
      · exact idle_pure _
      · exact idle_pure _
    · exact idle_bind (idle_lift _) fun _ => idle_pure _

/-- A run that goes on after a group of events goes on from the event. -/
theorem resume_onward {course : Course ω α} {leg : Leg α} {window : Window α} {t : α} {y : State α}
    {verdict : Verdict ω α} (whole : window.stop = leg.step.tNext) {s s' : Session ω α} {next : Phase α}
    (ran : (course.resume leg window t y (leg.last && t == leg.step.tNext) verdict).runFrom s =
      (.ok (.onward next), s')) :
    (verdict.isStop || (leg.last && t == leg.step.tNext)) = false ∧ next.time = t ∧ next.Whole := by
  cases verdict with
  | stop =>
    rw [resume, runFrom_bind_ok] at ran
    obtain ⟨_, _, _, left⟩ := ran
    cases left
  | replace index handler =>
    simp only [resume, runFrom_bind_ok] at ran
    obtain ⟨_, _, _, _, _, _, _, _, _, left⟩ := ran
    exact restart_onward left
  | restart => exact restart_onward ran
  | carryOn =>
    simp only [resume, runFrom_bind_ok] at ran
    obtain ⟨_, _, _, left⟩ := ran
    rw [← whole]
    cases ends : t == window.stop with
    | true =>
      rw [ends, if_pos rfl] at left
      cases more : leg.last with
      | true =>
        rw [more] at left
        cases left
      | false =>
        rw [more] at left
        cases left
        exact ⟨rfl, rfl, trivial⟩
    | false =>
      rw [ends, if_neg Bool.false_ne_true, runFrom_bind_ok] at left
      obtain ⟨rest, _, narrowed, left⟩ := left
      cases left
      obtain ⟨_, start, stop, _, _⟩ := Window.restrict_ok (runFrom_lift_iff.mp narrowed).1
      exact ⟨by simp [Verdict.isStop], start, stop.trans whole⟩

theorem reacting_ok {course : Course ω α} {leg : Leg α} {window : Window α} {phase : Phase α} {t : α}
    {group : List (Occurrence α)} (start : window.start = phase.time) (whole : window.stop = leg.step.tNext)
    {s s' : Session ω α} {h : Handover ω α} (ran : (course.reacting leg window t group).runFrom s = (.ok h, s')) :
    h.Fits phase := by
  simp only [reacting, runFrom_bind_ok] at ran
  obtain ⟨piece, _, cut, verdict, _, _, same⟩ := ran
  cases same
  obtain ⟨_, begins, ends, _, _⟩ := Window.restrict_ok (runFrom_lift_iff.mp cut).1
  constructor
  · exact begins.trans start
  · exact course.idle_resume leg window t piece.yStop _ verdict
  · intro s next s' left
    rw [ends]
    exact resume_onward whole left

theorem idle_reacting (course : Course ω α) (leg : Leg α) (window : Window α) (t : α) (group : List (Occurrence α)) :
    (course.reacting leg window t group).Idle := by
  apply idle_bind (idle_lift _)
  intro piece
  exact idle_bind (idle_consult t piece.yStop group .carryOn) fun _ => idle_pure _

theorem idle_scan (window : Window α) : (scan window : Effect (Session ω α) α _).Idle := by
  apply idle_bind idle_get
  intro s
  split
  · exact idle_pure _
  · exact idle_onMonitor _

theorem idle_survey (course : Course ω α) (leg : Leg α) (window : Window α) : (course.survey leg window).Idle := by
  apply idle_bind (idle_scan window)
  intro group
  cases group with
  | nil => exact idle_pure _
  | cons first rest => exact idle_bind (idle_note rfl) fun _ => course.idle_reacting _ _ _ _

theorem idle_approach (course : Course ω α) (phase : Phase α) : (course.approach phase).Idle := by
  cases phase with
  | scanning leg window => exact course.idle_survey leg window
  | stepping t y yp =>
    apply idle_bind
    · exact idle_bind (idle_onTally _) fun _ => idle_pure _
    · exact fun leg => course.idle_survey leg (.ofStep leg.step)

omit [Spacing α] in
/-- The next step begins at the given time. -/
theorem nextLeg_start {course : Course ω α} {t : α} {y : State α} {yp : Option (State α)} {s s' : Session ω α}
    {leg : Leg α} (taken : (course.nextLeg t y yp).runFrom s = (.ok leg, s')) : leg.step.t = t := by
  obtain ⟨step, _, advanced, same⟩ := runFrom_bind_ok.mp taken
  obtain ⟨_, advanced, _⟩ := runFrom_within_ok.mp advanced
  have begins := Stepper.advance_start advanced
  cases same
  dsimp only
  split
  · exact begins
  · exact begins

theorem survey_ok {course : Course ω α} {leg : Leg α} {window : Window α} {phase : Phase α}
    (start : window.start = phase.time) (whole : window.stop = leg.step.tNext) {s s' : Session ω α} {h : Handover ω α}
    (ran : (course.survey leg window).runFrom s = (.ok h, s')) : h.Fits phase := by
  obtain ⟨group, _, _, left⟩ := runFrom_bind_ok.mp ran
  cases group with
  | nil =>
    cases left
    exact fits_settling start
  | cons first rest =>
    obtain ⟨_, _, _, left⟩ := runFrom_bind_ok.mp left
    exact reacting_ok start whole left

/-- What a pass is about to hand over fits the phase at which the pass stands. -/
theorem approach_ok {course : Course ω α} {phase : Phase α} (whole : phase.Whole) {s s' : Session ω α}
    {h : Handover ω α} (ran : (course.approach phase).runFrom s = (.ok h, s')) : h.Fits phase := by
  cases phase with
  | scanning leg window => exact survey_ok rfl whole ran
  | stepping t y yp =>
    obtain ⟨leg, _, taken, ran⟩ := runFrom_bind_ok.mp ran
    exact survey_ok (nextLeg_start taken) rfl ran

end Course

end Trajectory
