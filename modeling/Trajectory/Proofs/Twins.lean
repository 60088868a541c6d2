import Mathlib.Tactic
import Trajectory.Proofs.Handover
import Trajectory.Proofs.Purity

/-!
Sessions side by side.

Two sessions are twins (`Session.Twins`) if everything that decides how a run goes on is the same in both:
the watch on the handlers, the count of accepted pieces, and the journal. Their tallies are twins, and
their observers belong together in some way that is left open. Where the functions of the caller respect
the relation between the states of the caller, a pass makes its way to the same piece from twins
(`Course.alike_approach`), and does the same behind it. What the observers make of the pieces is all that
is left to compare (`Course.alike_passes`).
-/

namespace Trajectory

open Effect Tally

variable {ω α β γ : Type}

/-- A handler that does the same from states of the caller that belong together. -/
structure Handler.Respects (W : ω → ω → Prop) (handler : Handler ω α) : Prop where
  init : ∀ t y target, (handler.init t y target).Respects W
  g : ∀ t y, (handler.g t y).Respects W
  eventOccurred : ∀ t y increasing, (handler.eventOccurred t y increasing).Respects W
  resetState : ∀ t y, (handler.resetState t y).Respects W

/-- From the same state of the caller, every right-hand side and every handler does the same. -/
theorem Rate.respects_eq (f : Rate ω α) : f.Respects Eq := ⟨fun _ _ => Effect.respects_eq _, Effect.respects_eq _⟩

theorem Handler.respects_eq (handler : Handler ω α) : handler.Respects Eq :=
  ⟨fun _ _ _ => Effect.respects_eq _, fun _ _ => Effect.respects_eq _, fun _ _ _ => Effect.respects_eq _,
    fun _ _ => Effect.respects_eq _⟩

/-- Sessions that go on in the same way. -/
structure Session.Twins (W : ω → ω → Prop) (counted : Prop)
    (O : List (Observer ω α) → List (Observer ω α) → Prop) (s s' : Session ω α) : Prop where
  tally : s.tally.Twins W counted s'.tally
  monitor : s'.monitor = s.monitor
  respects : ∀ c ∈ s.monitor.channels, c.handler.Respects W
  observers : O s.observers s'.observers
  accepted : s'.accepted = s.accepted
  entries : s'.latestEntries = s.latestEntries

variable {W : ω → ω → Prop} {counted : Prop} {O : List (Observer ω α) → List (Observer ω α) → Prop} {P : β → Prop}

theorem Session.Twins.mono {O' : List (Observer ω α) → List (Observer ω α) → Prop} {s s' : Session ω α}
    (twins : s.Twins W counted O s') (weaker : O s.observers s'.observers → O' s.observers s'.observers) :
    s.Twins W counted O' s' :=
  ⟨twins.tally, twins.monitor, twins.respects, weaker twins.observers, twins.accepted, twins.entries⟩

namespace Monitor

/-- The same channels, with handlers that do the same from states of the caller that belong together. -/
def Twins (W : ω → ω → Prop) (p q : Monitor ω α × ω) : Prop :=
  q.1 = p.1 ∧ (∀ c ∈ p.1.channels, c.handler.Respects W) ∧ W p.2 q.2

theorem alike_change {f : Monitor ω α → Monitor ω α}
    (keeps : ∀ m : Monitor ω α, (∀ c ∈ m.channels, c.handler.Respects W) → ∀ c ∈ (f m).channels, c.handler.Respects W) :
    Alike (Twins W) (fun _ => True) (change f) (change f) := by
  apply alike_modify
  rintro ⟨_, w⟩ ⟨m, w'⟩ ⟨rfl, respects, related⟩
  exact ⟨rfl, keeps m respects, related⟩

theorem alike_onSecond {x y : Effect ω α β} (alike : Alike W P x y) :
    Alike (Twins W) P (onSecond x : Effect (Monitor ω α × ω) α β) (onSecond y) :=
  alike_within alike (fun _ _ twins => twins.2.2) fun _ _ _ _ twins related => ⟨twins.1, twins.2.1, related⟩

/-- The same channel, with a handler that does the same from states of the caller that belong together. -/
def Shared (W : ω → ω → Prop) (p q : Channel ω α × ω) : Prop :=
  (q.1 = p.1 ∧ p.1.handler.Respects W) ∧ W p.2 q.2

theorem alike_changeChannel {f : Channel ω α → Channel ω α} (keeps : ∀ c, (f c).handler = c.handler) :
    Alike (Shared W) (fun _ => True) (changeChannel f) (changeChannel f) := by
  apply alike_modify
  rintro ⟨_, w⟩ ⟨c, w'⟩ ⟨⟨rfl, respects⟩, related⟩
  exact ⟨⟨rfl, (keeps c).symm ▸ respects⟩, related⟩

theorem alike_called {x : Effect ω α β} (respects : x.Respects W) :
    Alike (Shared W) (fun _ => True) (onSecond x : Effect (Channel ω α × ω) α β) (onSecond x) :=
  alike_within respects (fun _ _ shared => shared.2) fun _ _ _ _ shared related => ⟨shared.1, related⟩

/-- What is called of the handler of a channel. -/
theorem alike_handler {x : Channel ω α → Effect ω α β}
    (each : ∀ c, c.handler.Respects W → (x c).Respects W) {f : β → Effect (Channel ω α × ω) α γ} {Q : γ → Prop}
    (rest : ∀ b, Alike (Shared W) Q (f b) (f b)) :
    Alike (Shared W) Q (do
      let (c, _) ← get
      let b ← onSecond (x c)
      f b) (do
      let (c, _) ← get
      let b ← onSecond (x c)
      f b) := by
  apply alike_get
  rintro ⟨_, w⟩ ⟨c, w'⟩ ⟨⟨rfl, respects⟩, _⟩
  exact alike_bind (alike_called (each c respects)) fun b _ => rest b

theorem alike_moveReference (t : α) (y : State α) :
    Alike (Shared W) (fun _ => True) (moveReference t y : Effect (Channel ω α × ω) α Unit) (moveReference t y) := by
  refine alike_bind (alike_changeChannel ?_) fun _ _ => ?_
  · exact fun _ => rfl
  exact alike_handler (fun c respects => respects.g t y) fun g => alike_changeChannel fun _ => rfl

/-- What is done to every channel in turn. -/
theorem alike_onChannels {x : Effect (Channel ω α × ω) α Unit} (each : Alike (Shared W) (fun _ => True) x x) :
    Alike (Twins W) (fun _ => True) (onChannels (forEach x)) (onChannels (forEach x)) := by
  refine alike_within (alike_forEach (D := fun c c' : Channel ω α => c' = c ∧ c.handler.Respects W) each) ?_ ?_
  · rintro ⟨m, w⟩ ⟨_, w'⟩ ⟨rfl, respects, related⟩
    exact ⟨List.forall₂_same.mpr fun c mem => ⟨rfl, respects c mem⟩, related⟩
  · rintro ⟨m, w⟩ ⟨_, w'⟩ ⟨cs, v⟩ ⟨cs', v'⟩ ⟨rfl, _, _⟩ ⟨together, related⟩
    change List.Forall₂ _ cs cs' at together
    have same : cs' = cs := by
      rw [← List.forall₂_eq_eq_eq]
      exact together.flip.imp fun _ _ shared => shared.1
    refine ⟨by rw [same], fun c mem => ?_, related⟩
    obtain ⟨i, at_⟩ := List.getElem?_of_mem mem
    obtain ⟨_, _, _, respects⟩ := forall₂_getElem? together.flip at_
    exact respects

variable [Scalar α]

theorem alike_init (t0 : α) (y0 : State α) (target : α) :
    Alike (Twins W) (fun _ => True) (init t0 y0 target : Effect (Monitor ω α × ω) α Unit) (init t0 y0 target) := by
  refine alike_bind (alike_change ?_) fun _ _ => alike_bind (P := fun _ => True) ?_ fun _ _ => alike_change ?_
  · exact fun _ => id
  · apply alike_onChannels
    refine alike_handler (fun c respects => respects.init t0 y0 target) fun _ => ?_
    exact alike_bind (alike_changeChannel fun _ => rfl) fun _ _ => alike_moveReference t0 y0
  · exact fun _ => id

theorem alike_commit (t : α) (y : State α) :
    Alike (Twins W) (fun _ => True) (commit t y : Effect (Monitor ω α × ω) α Unit) (commit t y) := by
  apply alike_onChannels
  refine alike_bind (alike_moveReference t y) fun _ _ => alike_changeChannel fun c => ?_
  split
  · rfl
  · rfl

omit [Scalar α] in
theorem alike_acknowledge (index : Nat) (t : α) :
    Alike (Twins W) (fun _ => True) (acknowledge index t : Effect (Monitor ω α × ω) α Unit) (acknowledge index t) := by
  apply alike_get
  rintro ⟨_, w⟩ ⟨m, w'⟩ ⟨rfl, respects, _⟩
  dsimp only at respects ⊢
  cases at_ : m.channels[index]? with
  | none => exact alike_throw _
  | some c =>
    apply alike_change
    intro d others c' mem
    rcases List.mem_or_eq_of_mem_set mem with mem | rfl
    · exact others c' mem
    · exact respects c (List.mem_of_getElem? at_)

theorem alike_scan [Spacing α] (window : Window α) :
    Alike (Twins W) (fun _ => True) (scan window : Effect (Monitor ω α × ω) α _) (scan window) := by
  refine alike_bind (alike_change ?_) fun _ _ => ?_
  · exact fun _ => id
  apply alike_get
  rintro ⟨_, w⟩ ⟨m, w'⟩ ⟨rfl, respects, _⟩
  dsimp only at respects ⊢
  have search := closed_candidates (closed_respects W) m.forward window 0 fun c mem => (respects c mem).g
  refine alike_bind (alike_onSecond search) fun found _ => ?_
  refine alike_bind (alike_change ?_) fun _ _ => alike_pure trivial
  exact fun _ => id

end Monitor

namespace Session

theorem alike_onTally {x y : Effect (Tally ω) α β} (alike : Alike (Tally.Twins W counted) P x y) :
    Alike (Twins W counted O) P (onTally x) (onTally y) :=
  alike_within alike (fun _ _ twins => twins.tally) fun _ _ _ _ twins tally =>
    ⟨tally, twins.monitor, twins.respects, twins.observers, twins.accepted, twins.entries⟩

theorem alike_outside {x : Effect ω α β} (respects : x.Respects W) :
    Alike (Twins W counted O) (fun _ => True) (outside x) (outside x) :=
  alike_onTally (Tally.alike_outside respects)

theorem alike_onMonitor {x y : Effect (Monitor ω α × ω) α β} (alike : Alike (Monitor.Twins W) P x y) :
    Alike (Twins W counted O) P (onMonitor x) (onMonitor y) := by
  refine alike_within alike (fun s s' twins => ⟨twins.monitor, twins.respects, twins.tally.world⟩) ?_
  rintro s s' ⟨m, w⟩ ⟨m', w'⟩ twins ⟨same, respects, related⟩
  exact ⟨⟨related, twins.tally.evaluations, twins.tally.compiled⟩, same, respects, twins.observers, twins.accepted,
    twins.entries⟩

theorem alike_onObservers {x y : Effect (List (Observer ω α) × ω) α β}
    (alike : Alike (fun p q => O p.1 q.1 ∧ W p.2 q.2) P x y) :
    Alike (Twins W counted O) P (onObservers x) (onObservers y) := by
  refine alike_within alike (fun s s' twins => ⟨twins.observers, twins.tally.world⟩) ?_
  rintro s s' ⟨os, w⟩ ⟨os', w'⟩ twins ⟨observers, related⟩
  exact ⟨⟨related, twins.tally.evaluations, twins.tally.compiled⟩, twins.monitor, twins.respects, observers,
    twins.accepted, twins.entries⟩

theorem alike_note (e : Entry α) :
    Alike (Twins W counted O) (fun _ => True) (note e : Effect (Session ω α) α Unit) (note e) :=
  alike_modify fun _ _ twins => ⟨twins.tally, twins.monitor, twins.respects, twins.observers, twins.accepted,
    congrArg (e :: ·) twins.entries⟩

variable [Scalar α] [Spacing α]

theorem alike_deliver {piece : Window α} {last : Bool}
    (heard : Alike (fun p q => O p.1 q.1 ∧ W p.2 q.2) (fun _ => True) (forEach (Observer.accept piece last))
      (forEach (Observer.accept piece last))) :
    Alike (Twins W counted O) (fun _ => True) (deliver piece last) (deliver piece last) := by
  apply alike_bind (P := fun _ => True)
  · exact alike_modify fun _ _ twins => ⟨twins.tally, twins.monitor, twins.respects, twins.observers,
      congrArg (· + 1) twins.accepted, twins.entries⟩
  · exact fun _ _ => alike_bind (alike_note _) fun _ _ => alike_onObservers heard

end Session

open Session

/-- A verdict whose handler does the same from states of the caller that belong together. -/
def Verdict.Respects (W : ω → ω → Prop) : Verdict ω α → Prop
  | .replace _ handler => handler.Respects W
  | _ => True

/-- A handover behind which a pass does the same from twins. -/
def Handover.Alike (W : ω → ω → Prop) (counted : Prop) (O : List (Observer ω α) → List (Observer ω α) → Prop)
    (h : Handover ω α) : Prop :=
  Effect.Alike (Session.Twins W counted O) (fun _ => True) h.rest h.rest

namespace Course

/-- The members of a group answer the same. -/
theorem alike_consult (t : α) (y : State α) (group : List (Occurrence α)) {verdict : Verdict ω α}
    (respects : verdict.Respects W) :
    Alike (Twins W counted O) (Verdict.Respects W) (consult t y group verdict) (consult t y group verdict) := by
  induction group generalizing verdict with
  | nil => exact alike_pure respects
  | cons o rest ih =>
    apply alike_get
    intro s s' twins
    rw [twins.monitor]
    cases at_ : s.monitor.channels[o.index]? with
    | none => exact alike_throw _
    | some channel =>
      have respected := twins.respects channel (List.mem_of_getElem? at_)
      refine alike_bind (alike_note _) fun _ _ => ?_
      refine alike_bind (alike_outside (respected.eventOccurred t y o.increasing)) fun action _ => ?_
      refine alike_bind (alike_note _) fun _ _ => ?_
      refine alike_bind (alike_onMonitor (Monitor.alike_acknowledge _ _)) fun _ _ => ?_
      cases action with
      | stop => exact alike_pure trivial
      | resetState => exact alike_pure respected
      | resetDerivatives => exact ih trivial
      | carryOn => exact ih respects

variable [Scalar α]

theorem alike_nextLeg {course : Course ω α} {t : α} {y : State α} {yp yp' : Option (State α)}
    (taken : ∀ h, Alike (Tally.Twins W counted) (fun _ => True)
      (course.stepper.advance course.equation.toRate t y h yp) (course.stepper.advance course.equation.toRate t y h yp')) :
    Alike (Twins W counted O) (fun _ => True) (course.nextLeg t y yp) (course.nextLeg t y yp') :=
  alike_bind (alike_onTally (taken _)) fun _ _ => alike_pure trivial

theorem alike_restart (t : α) (y : State α) (atEnd : Bool) :
    Alike (Twins W counted O) (fun _ => True) (restart t y atEnd) (restart t y atEnd) := by
  apply alike_bind (alike_onMonitor (Monitor.alike_commit t y))
  intro _ _
  cases atEnd
  · exact alike_pure trivial
  · exact alike_pure trivial

variable [Spacing α]

theorem alike_scan (window : Window α) :
    Alike (Twins W counted O) (fun _ => True) (scan window) (scan window) := by
  apply alike_get
  intro s s' twins
  rw [twins.monitor]
  refine alike_ite (P := fun _ => True) (alike_pure trivial) ?_
  exact alike_onMonitor (Monitor.alike_scan window)

omit [Spacing α] in
theorem alike_settling (leg : Leg α) (window : Window α) : (settling leg window).Alike W counted O := by
  apply alike_bind (alike_onMonitor (Monitor.alike_commit _ _))
  intro _ _
  exact alike_ite (alike_pure trivial) (alike_pure trivial)

theorem alike_resume (course : Course ω α) (leg : Leg α) (window : Window α) (t : α) (y : State α) (atEnd : Bool)
    {verdict : Verdict ω α} (respects : verdict.Respects W) :
    Alike (Twins W counted O) (fun _ => True) (course.resume leg window t y atEnd verdict)
      (course.resume leg window t y atEnd verdict) := by
  cases verdict with
  | stop => exact alike_bind (alike_note _) fun _ _ => alike_pure trivial
  | replace index handler =>
    refine alike_bind (alike_outside (Handler.Respects.resetState respects t y)) fun y _ => ?_
    refine alike_bind (alike_lift fun _ _ => trivial) fun _ _ => ?_
    exact alike_bind (alike_note _) fun _ _ => alike_restart t y atEnd
  | restart => exact alike_restart t y atEnd
  | carryOn =>
    refine alike_bind (alike_onMonitor (Monitor.alike_commit t y)) fun _ _ => ?_
    apply alike_ite
    · exact alike_ite (alike_pure trivial) (alike_pure trivial)
    · exact alike_bind (alike_lift fun _ _ => trivial) fun _ _ => alike_pure trivial

theorem alike_survey (course : Course ω α) (leg : Leg α) (window : Window α) :
    Alike (Twins W counted O) (Handover.Alike W counted O) (course.survey leg window) (course.survey leg window) := by
  refine alike_bind (alike_scan window) fun group _ => ?_
  cases group with
  | nil => exact alike_pure (alike_settling leg window)
  | cons first rest =>
    refine alike_bind (alike_note _) fun _ _ => ?_
    refine alike_bind (alike_lift fun _ _ => trivial) fun piece _ => ?_
    refine alike_bind (alike_consult first.t piece.yStop _ trivial) fun verdict respects => ?_
    exact alike_pure (course.alike_resume leg window first.t piece.yStop _ respects)

/-- From twins a pass makes its way to the same piece. -/
theorem alike_approach {course : Course ω α} (respects : course.equation.toRate.Respects W) (phase : Phase α) :
    Alike (Twins W counted O) (Handover.Alike W counted O) (course.approach phase) (course.approach phase) := by
  cases phase with
  | scanning leg window => exact course.alike_survey leg window
  | stepping t y yp =>
    refine alike_bind (alike_nextLeg fun h => course.stepper.alike_advance respects t y h yp) fun leg _ => ?_
    exact course.alike_survey leg _

/-- The same piece is handed over to observers for which it is alike. -/
theorem alike_handOver {course : Course ω α} {h : Handover ω α} (alike : h.Alike W counted O)
    (heard : Alike (fun p q => O p.1 q.1 ∧ W p.2 q.2) (fun _ => True) (forEach (Observer.accept h.piece h.last))
      (forEach (Observer.accept h.piece h.last))) :
    Alike (Twins W counted O) (fun _ => True) (course.handOver h) (course.handOver h) := by
  intro s s' twins
  rw [runFrom_handOver, runFrom_handOver, twins.accepted]
  split
  · exact ⟨rfl, twins, fun _ returned => by cases returned⟩
  · exact alike_bind (alike_deliver heard) (fun _ _ => alike) s s' twins

omit [Spacing α] in
/-- Twins begin in the same way if the observers make the same of the start. -/
theorem alike_begin {course : Course ω α} (respects : course.equation.toRate.Respects W) (t0 : α) (y0 : State α)
    (started : Alike (fun p q => O p.1 q.1 ∧ W p.2 q.2) (fun _ => True)
      (forEach (Observer.start t0 y0 course.target)) (forEach (Observer.start t0 y0 course.target))) :
    Alike (Twins W counted O) (fun _ => True) (course.begin t0 y0) (course.begin t0 y0) := by
  refine alike_bind (alike_onTally (respects.alike_call t0 y0)) fun yp _ => ?_
  refine alike_bind (alike_lift fun _ _ => trivial) fun _ _ => ?_
  refine alike_bind (alike_onMonitor (Monitor.alike_init t0 y0 course.target)) fun _ _ => ?_
  exact alike_bind (alike_onObservers started) fun _ _ => alike_pure trivial

/-- Passes from twins do the same if the observers make the same of every piece. -/
theorem alike_passes {course : Course ω α} (respects : course.equation.toRate.Respects W)
    (heard : ∀ piece last, Alike (fun p q => O p.1 q.1 ∧ W p.2 q.2) (fun _ => True)
      (forEach (Observer.accept piece last)) (forEach (Observer.accept piece last))) (left : Nat) (phase : Phase α) :
    Alike (Twins W counted O) (fun _ => True) (course.passes left phase) (course.passes left phase) := by
  induction left generalizing phase with
  | zero => exact alike_throw _
  | succ left ih =>
    rw [passes, pass_eq, bind_assoc]
    refine alike_bind (alike_approach respects phase) fun h alike => ?_
    refine alike_bind (alike_handOver alike (heard h.piece h.last)) fun progress _ => ?_
    cases progress with
    | finished t y => exact alike_pure trivial
    | onward next => exact ih next

/-- Runs from twins do the same if the observers make the same of the start and of every piece. -/
theorem alike_run {course : Course ω α} (respects : course.equation.toRate.Respects W) (t0 : α) (y0 : State α)
    (started : Alike (fun p q => O p.1 q.1 ∧ W p.2 q.2) (fun _ => True)
      (forEach (Observer.start t0 y0 course.target)) (forEach (Observer.start t0 y0 course.target)))
    (heard : ∀ piece last, Alike (fun p q => O p.1 q.1 ∧ W p.2 q.2) (fun _ => True)
      (forEach (Observer.accept piece last)) (forEach (Observer.accept piece last))) :
    Alike (Twins W counted O) (fun _ => True) (course.run t0 y0) (course.run t0 y0) := by
  rw [run_eq]
  exact alike_bind (alike_begin respects t0 y0 started) fun yp _ => alike_passes respects heard _ _

end Course

end Trajectory
