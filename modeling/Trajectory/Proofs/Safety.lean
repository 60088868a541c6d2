import Mathlib.Tactic
import Trajectory.Proofs.Isolation
import Trajectory.Proofs.Ledger
import Trajectory.Proofs.Observer.Failure
import Trajectory.Proofs.Sized
import Trajectory.Proofs.Timer

/-!
What a run can fail with.

If the right-hand side and the handlers answer for every state of the right size
(`Equation.Total`, `Handler.Total`), a run that is not refused can fail in two ways of its own only:
a root cannot be isolated, or the budget of pieces is spent. The remaining failures are those of the
code that observers bring with them (`Fails.cause`, `integrate_safe`). In particular no time outside
a window is ever asked for, no window is narrowed against its step, no step has length zero, no root
search starts without a change of sign, nothing is divided by zero, and no loop runs out of rounds.
-/

namespace Trajectory

open Session

variable {ω : Type} {shape : Shape} {e : Error Rat}

/-- A run has spent its budget of pieces. -/
def Error.IsExhaustion : Error Rat → Prop
  | .stepsExhausted _ _ _ => True
  | _ => False

/-- A handler that answers for every state that fits an equation, and resets it to one that fits. -/
structure Handler.Total (equation : Equation ω Rat) (handler : Handler ω Rat) : Prop where
  init : ∀ t y target, equation.accepts y = true → (handler.init t y target).Yields fun _ => True
  g : ∀ t y, equation.accepts y = true → (handler.g t y).Yields fun _ => True
  eventOccurred : ∀ t y increasing, equation.accepts y = true →
    (handler.eventOccurred t y increasing).Yields fun _ => True
  resetState : ∀ t y, equation.accepts y = true → (handler.resetState t y).Yields fun z => equation.accepts z = true

/-- A course whose right-hand side and handlers answer for every state of the right size. -/
structure Course.Sound (course : Course ω Rat) (watches : List (Handler ω Rat × Settings Rat)) (t0 : Rat)
    (y₀ : State Rat) : Prop where
  directed : course.Directed watches t0
  equation : course.equation.Total
  implemented : course.stepper.scheme ≠ .abstract
  accepted : course.equation.accepts y₀ = true
  handlers : ∀ watch ∈ watches, watch.1.Total course.equation

/-- An observer that waits for times behind a given one, and whose own code can only fail in ways
that are excused. -/
structure Observer.Tame (forward : Bool) (shape : Shape) (excused : Error Rat → Prop) (a : Rat)
    (o : Observer ω Rat) : Prop where
  along : o.Along forward a
  raises : ∀ e, o.Raises shape e → excused e

/-- The states at a stage, and those of its step, have one shape. -/
def Stage.Sized (shape : Shape) : Stage ω → Prop
  | opening _ y => y.shape = shape
  | stepping _ y yp => y.shape = shape ∧ ∀ z ∈ yp, z.shape = shape
  | scanning leg _ => leg.step.Sized shape
  | located leg _ _ _ => leg.step.Sized shape
  | asking cut _ _ => cut.leg.step.Sized shape
  | awaiting cut _ _ _ _ => cut.leg.step.Sized shape
  | decided cut _ _ => cut.leg.step.Sized shape
  | accepted cut _ _ => cut.leg.step.Sized shape
  | told cut _ => cut.leg.step.Sized shape
  | restarting _ y _ => y.shape = shape
  | ended _ _ => True

/-- The time up to which the observers have heard of a run. -/
def Stage.heardTo : Stage ω → Rat
  | opening t _ => t
  | stepping t _ _ => t
  | scanning _ window => window.start
  | located _ window _ _ => window.start
  | asking cut _ _ => cut.window.start
  | awaiting cut _ _ _ _ => cut.window.start
  | decided cut _ _ => cut.window.start
  | accepted cut _ _ => cut.window.start
  | told cut _ => cut.piece.stop
  | restarting t _ _ => t
  | ended t _ => t

/-- The observers of a run at a stage: before it they can be served, and then they are tame. -/
def Stage.Attended (forward : Bool) (shape : Shape) (excused : Error Rat → Prop) (os : List (Observer ω Rat)) :
    Stage ω → Prop
  | opening t _ => ∀ o ∈ os, o.Punctual forward t ∧ ∀ e, o.Raises shape e → excused e
  | p => ∀ o ∈ os, o.Tame forward shape excused p.heardTo

section

variable [Spacing Rat] {course : Course ω Rat} {watches : List (Handler ω Rat × Settings Rat)} {t0 : Rat}
  {y₀ : State Rat} {p q : Stage ω} {s s' : Session ω Rat} {excused : Error Rat → Prop}

theorem Leg.Shows.yStop_shape {forward : Bool} {leg : Leg Rat} {window : Window Rat} (shown : leg.Shows forward window)
    (sized : leg.step.Sized shape) : window.yStop.shape = shape :=
  sized.stateAt_shape shown.part.yStop

theorem Leg.Shows.answers {forward : Bool} {leg : Leg Rat} {window : Window Rat}
    (gaps : ∀ x : Rat, 0 ≤ Spacing.ulp x) (shown : leg.Shows forward window) (sized : leg.step.Sized shape) :
    window.Answers forward shape :=
  ⟨shown.part.ahead, fun _ begun reached => shown.stateAt_ok gaps sized begun reached⟩

omit [Spacing Rat] in
theorem Course.Sound.accepts_iff (sound : course.Sound watches t0 y₀) {y : State Rat} :
    course.equation.accepts y = true ↔ y.shape = y₀.shape :=
  Equation.accepts_iff sound.accepted

omit [Spacing Rat] in
theorem Course.Sound.nextLeg_ends (sound : course.Sound watches t0 y₀) {t : Rat} {y : State Rat}
    {yp : Option (State Rat)} (ahead : Precedes course.forward t course.target) (state : y.shape = y₀.shape)
    (rate : ∀ z ∈ yp, z.shape = y₀.shape) :
    (course.nextLeg t y yp).Ends (fun leg => leg.step.Sized y₀.shape) fun _ => False := by
  have long : course.h ≠ 0 := by
    intro zero
    have size := sound.directed.size
    rw [zero, mul_zero] at size
    exact lt_irrefl 0 size
  exact Course.nextLeg_ends sound.equation sound.implemented sound.accepted long ahead.ne state rate

omit [Spacing Rat] in
theorem Monitor.Keeps.mem {m : Monitor ω Rat} {forward : Bool} {t : Rat} {y : State Rat}
    (kept : m.Keeps watches forward t y) {c : Channel ω Rat} (mem : c ∈ m.channels) :
    ∃ watch ∈ watches, Channel.Keeps t y watch c := by
  obtain ⟨index, at_⟩ := List.mem_iff_getElem?.mp mem
  obtain ⟨watch, _, listed, keeps⟩ := kept.channel at_
  exact ⟨watch, listed, keeps⟩

/-- Every move leads to states of the same shape. -/
theorem sized_move (sound : course.Sound watches t0 y₀) (move : Move course (p, s) (q, s'))
    (route : p.OnRoute course watches t0 s.monitor) (shown : p.Shows course.forward) (before : p.Sized y₀.shape) :
    q.Sized y₀.shape := by
  cases move with
  | «open» derivative fits watched observed =>
    refine ⟨before, fun z at_ => ?_⟩
    cases at_
    exact sound.accepts_iff.mp (Equation.requireSize_ok.mp fits)
  | step taken =>
    obtain ⟨_, ahead, _⟩ := route
    obtain ⟨state, rate⟩ := before
    exact (sound.nextLeg_ends ahead state rate s).1 _ _ taken
  | @answer cut o handler rest verdict action _ _ _ answered acknowledged =>
    cases action with
    | carryOn | resetDerivatives | resetState | stop => exact before
  | replace reset fits => exact sound.accepts_iff.mp (Equation.requireSize_ok.mp fits)
  | restart => exact shown.piece.yStop_shape before
  | @refresh t y atEnd _ _ committed =>
    cases atEnd with
    | true => trivial
    | false => exact ⟨before, fun _ absent => by cases absent⟩
  | resume committed resumed =>
    cases resumed with
    | ended whole last => trivial
    | stepping whole more =>
      refine ⟨shown.piece.yStop_shape before, fun z at_ => ?_⟩
      cases at_
      exact before.ypNext
    | scanning inner narrowed => exact before
  | stop => trivial
  | clear scanned => exact before
  | locate scanned => exact before
  | cut truncated => exact before
  | ask watched => exact before
  | decide => exact before
  | accept affordable => exact before
  | tell told => exact before

theorem observers_scan {window : Window Rat} {group : List (Occurrence Rat)}
    (scanned : (Course.scan window).runFrom s = (.ok group, s')) : s'.observers = s.observers := by
  unfold Course.scan at scanned
  rw [Effect.runFrom_bind, Effect.runFrom_get] at scanned
  by_cases unwatched : s.monitor.channels.isEmpty = true
  · simp only [unwatched, if_true, Effect.runFrom_pure] at scanned
    cases scanned
    rfl
  · simp only [unwatched] at scanned
    obtain ⟨_, _, _, rfl⟩ := onMonitor_ok.mp scanned
    rfl

omit [Spacing Rat] in
theorem observers_nextLeg {t : Rat} {y : State Rat} {yp : Option (State Rat)} {leg : Leg Rat}
    (taken : (course.nextLeg t y yp).runFrom s = (.ok leg, s')) : s'.observers = s.observers := by
  rw [Course.nextLeg] at taken
  obtain ⟨_, _, advanced, taken⟩ := Effect.runFrom_bind_ok.mp taken
  obtain ⟨_, _, rfl⟩ := onTally_ok.mp advanced
  rw [Effect.runFrom_pure] at taken
  cases taken
  rfl

/-- Every move leads to observers that are tame. -/
theorem attended_move (gaps : ∀ x : Rat, 0 ≤ Spacing.ulp x) (directed : course.Directed watches t0)
    (move : Move course (p, s) (q, s')) (route : p.OnRoute course watches t0 s.monitor)
    (shown : p.Shows course.forward) (before : p.Attended course.forward shape excused s.observers) :
    q.Attended course.forward shape excused s'.observers := by
  cases move with
  | «open» derivative fits watched observed =>
    obtain ⟨rfl, _⟩ := route
    obtain ⟨_, _, rfl⟩ := onTally_ok.mp derivative
    obtain ⟨_, _, _, rfl⟩ := onMonitor_ok.mp watched
    obtain ⟨os, _, each, rfl⟩ := onObservers_ok.mp observed
    intro o' mem
    obtain ⟨i, at_⟩ := List.mem_iff_getElem?.mp mem
    obtain ⟨o, first, _, _, heard⟩ := forall₂_getElem? (Effect.forEach_ok each) at_
    obtain ⟨punctual, raises⟩ := before o (List.mem_of_getElem? first)
    rw [← directed.forward_eq] at punctual ⊢
    obtain ⟨along, milder⟩ := Observer.start_along punctual heard
    exact ⟨along, fun e raised => raises e (milder shape e raised)⟩
  | step taken =>
    obtain ⟨_, start, _⟩ := Course.nextLeg_ok taken
    rw [observers_nextLeg taken]
    intro o mem
    have tame := before o mem
    rw [Stage.heardTo, ← start] at tame
    exact tame
  | clear scanned =>
    rw [observers_scan scanned]
    exact before
  | locate scanned =>
    have same := observers_scan scanned
    intro o mem
    exact before o (same ▸ mem)
  | @answer cut o handler rest verdict action _ _ _ answered acknowledged =>
    obtain ⟨_, _, rfl⟩ := outside_ok.mp answered
    obtain ⟨_, _, _, rfl⟩ := onMonitor_ok.mp acknowledged
    cases action with
    | carryOn | resetDerivatives | resetState | stop => exact before
  | tell told =>
    obtain ⟨fits, _⟩ := route
    obtain ⟨os, _, each, rfl⟩ := onObservers_ok.mp told
    intro o' mem
    obtain ⟨i, at_⟩ := List.mem_iff_getElem?.mp mem
    obtain ⟨o, first, _, _, heard⟩ := forall₂_getElem? (Effect.forEach_ok each) at_
    obtain ⟨along, raises⟩ := before o (List.mem_of_getElem? first)
    rw [Stage.heardTo, ← fits.start] at along
    obtain ⟨along', milder⟩ := Observer.accept_along gaps shown.piece.part along heard
    exact ⟨along', fun e raised => raises e (milder shape e raised)⟩
  | replace reset fits =>
    obtain ⟨_, _, rfl⟩ := outside_ok.mp reset
    exact before
  | @refresh t y atEnd _ _ committed =>
    obtain ⟨_, _, _, rfl⟩ := onMonitor_ok.mp committed
    cases atEnd with
    | true => exact before
    | false => exact before
  | resume committed resumed =>
    obtain ⟨_, _, _, rfl⟩ := onMonitor_ok.mp committed
    cases resumed with
    | ended whole last => exact before
    | stepping whole more => exact before
    | scanning inner narrowed =>
      obtain ⟨_, start, _⟩ := Window.restrict_ok narrowed
      intro o mem
      have tame := before o mem
      rw [Stage.heardTo, ← start] at tame
      exact tame
  | stop => exact before
  | restart => exact before
  | cut truncated => exact before
  | ask watched => exact before
  | decide => exact before
  | accept affordable => exact before

section

variable (sound : course.Sound watches t0 y₀)

include sound

omit [Spacing Rat] in
/-- The start of a run fails only if an observer does. -/
private theorem begin_error {t : Rat} {y : State Rat} (created : s.monitor.channels = (Monitor.create watches).channels)
    (state : y.shape = y₀.shape) (failed : (course.begin t y).runFrom s = (.error e, s')) :
    ∃ o ∈ s.observers, o.Raises y₀.shape e := by
  have accepted : course.equation.accepts y = true := sound.accepts_iff.mpr state
  have answers := (sound.equation.answers sound.accepted).call t y state
  rcases Effect.runFrom_bind_error.mp failed with failed | ⟨yp, s₁, derivative, failed⟩
  · exact ((Effect.ends_within answers s).2 e _ failed).elim
  have rate := (Effect.ends_within answers s).1 yp _ derivative
  obtain ⟨_, _, rfl⟩ := onTally_ok.mp derivative
  rcases Effect.runFrom_bind_error.mp failed with failed | ⟨_, s₂, lifted, failed⟩
  · obtain ⟨unfit, _⟩ := Effect.runFrom_lift_iff.mp failed
    rw [Equation.requireSize_ok.mpr (sound.accepts_iff.mpr rate)] at unfit
    cases unfit
  obtain ⟨_, rfl⟩ := Effect.runFrom_lift_iff.mp lifted
  rcases Effect.runFrom_bind_error.mp failed with failed | ⟨_, s₃, watched, failed⟩
  · obtain ⟨_, failed⟩ := Effect.runFrom_within_error failed
    obtain ⟨c, mem, raised⟩ := Monitor.init_error failed
    rw [created, Monitor.create, List.mem_map] at mem
    obtain ⟨watch, listed, rfl⟩ := mem
    have handler := sound.handlers watch listed
    rcases raised with raised | raised
    · exact ((handler.init t y course.target accepted).not_raises e raised).elim
    · exact ((handler.g t y accepted).not_raises e raised).elim
  obtain ⟨_, _, _, rfl⟩ := onMonitor_ok.mp watched
  rcases Effect.runFrom_bind_error.mp failed with failed | ⟨_, s₄, _, impossible⟩
  · obtain ⟨_, failed⟩ := Effect.runFrom_within_error failed
    obtain ⟨o, mem, _, _, _, failed⟩ := Effect.forEach_error failed
    have raised := Observer.start_error failed
    rw [state] at raised
    exact ⟨o, mem, raised⟩
  · rw [Effect.runFrom_pure] at impossible
    cases impossible

/-- A scan fails only if there is a root to be isolated and this cannot be done. -/
private theorem scan_error (gaps : ∀ x : Rat, 0 ≤ Spacing.ulp x) {leg : Leg Rat} {window : Window Rat}
    (kept : s.monitor.Keeps watches course.forward window.start window.yStart)
    (shown : leg.Shows course.forward window) (sized : leg.step.Sized y₀.shape)
    (failed : (Course.scan window).runFrom s = (.error e, s')) : e.IsIsolation ∧ watches ≠ [] := by
  unfold Course.scan at failed
  rw [Effect.runFrom_bind, Effect.runFrom_get] at failed
  by_cases unwatched : s.monitor.channels.isEmpty = true
  · simp only [unwatched, if_true, Effect.runFrom_pure] at failed
    cases failed
  · simp only [unwatched, Bool.false_eq_true, if_false] at failed
    have nonempty : watches ≠ [] := by
      rintro rfl
      exact unwatched (List.isEmpty_iff.mpr (List.forall₂_nil_left_iff.mp kept.channels))
    obtain ⟨_, failed⟩ := Effect.runFrom_within_error failed
    refine ⟨Monitor.scan_error (fun c mem => ?_) failed, nonempty⟩
    obtain ⟨watch, listed, keeps⟩ := kept.mem mem
    have valid : c.settings.valid = true := keeps.settings ▸ sound.directed.valid watch listed
    rw [kept.forward_eq]
    refine Channel.firstRoot_ends (fun _ => id) valid fun t begun reached => ?_
    rw [keeps.tRef] at begun
    obtain ⟨y, answered, state⟩ := shown.stateAt_ok gaps sized begun reached
    have found : (liftM (window.stateAt t) : Effect ω Rat (State Rat)).Ends (fun z => z = y) Error.IsIsolation := by
      rw [answered]
      exact Effect.ends_pure rfl
    refine Effect.ends_bind found fun z same => ?_
    rw [same, keeps.handler]
    exact ((sound.handlers watch listed).g t y (sound.accepts_iff.mpr state)).ends

omit [Spacing Rat] in
/-- A commit at a state of the right shape does not fail. -/
private theorem not_commit_error {forward : Bool} {t t' : Rat} {y y' : State Rat}
    (kept : s.monitor.Keeps watches forward t' y') (state : y.shape = y₀.shape)
    (failed : (onMonitor (Monitor.commit t y)).runFrom s = (.error e, s')) : False := by
  obtain ⟨_, failed⟩ := Effect.runFrom_within_error failed
  obtain ⟨c, mem, raised⟩ := Monitor.commit_error failed
  obtain ⟨watch, listed, keeps⟩ := kept.mem mem
  rw [keeps.handler] at raised
  exact ((sound.handlers watch listed).g t y (sound.accepts_iff.mpr state)).not_raises e raised

/-- A run fails with a root of a handler that it cannot isolate, where it is to accept a piece with its budget spent,
or with an error that is excused. -/
theorem Fails.place (gaps : ∀ x : Rat, 0 ≤ Spacing.ulp x) (fails : Fails course p s e)
    (route : p.OnRoute course watches t0 s.monitor) (shown : p.Shows course.forward) (sized : p.Sized y₀.shape)
    (attended : p.Attended course.forward y₀.shape excused s.observers) (affordable : s.accepted ≤ course.budget) :
    (e.IsIsolation ∧ watches ≠ []) ∨
      (e.IsExhaustion ∧ course.budget ≤ s.accepted ∧ ∃ cut last verdict, p = .decided cut last verdict) ∨
      excused e := by
  cases fails with
  | «begin» failed =>
    obtain ⟨o, mem, raised⟩ := begin_error sound route.2 sized failed
    exact Or.inr (Or.inr ((attended o mem).2 e raised))
  | step failed =>
    obtain ⟨_, ahead, _⟩ := route
    obtain ⟨state, rate⟩ := sized
    exact ((sound.nextLeg_ends ahead state rate s).2 e _ failed).elim
  | scan failed => exact Or.inl (scan_error sound gaps route.2 shown sized failed)
  | @cut leg window first rest _ _ failed =>
    obtain ⟨_, _, reached, reported⟩ := route
    have root := reported first List.mem_cons_self
    have behind := (root.inside sound.directed).1.trans_notAfter root.reached
    obtain ⟨v, narrowed⟩ := shown.restrict_ok gaps sized .refl behind.notAfter reached
    rw [Window.truncate, narrowed] at failed
    cases failed
  | @unknown cut o rest verdict _ unwatched =>
    obtain ⟨_, _, kept, reported⟩ := route
    obtain ⟨watch, _, registered, _⟩ := (reported o List.mem_cons_self).searched
    obtain ⟨c, watched, _⟩ := forall₂_getElem? kept.channels.flip registered
    rw [unwatched] at watched
    cases watched
  | @answer cut o handler rest verdict _ _ _ failed =>
    obtain ⟨_, _, ⟨settings, registered⟩, _⟩ := route
    have answers := sound.handlers _ (List.mem_of_getElem? registered)
    have state := sound.accepts_iff.mpr (shown.piece.yStop_shape sized)
    exact ((answers.eventOccurred _ _ o.increasing state).not_raises e (outside_error failed)).elim
  | exhausted spent => exact Or.inr (Or.inl ⟨trivial, spent, _, _, _, rfl⟩)
  | @tell cut last verdict _ _ _ failed =>
    obtain ⟨fits, _⟩ := route
    obtain ⟨_, failed⟩ := Effect.runFrom_within_error failed
    obtain ⟨o, mem, _, _, _, failed⟩ := Effect.forEach_error failed
    obtain ⟨along, raises⟩ := attended o mem
    rw [Stage.heardTo, ← fits.start] at along
    have answering := shown.piece.answers gaps sized
    exact Or.inr (Or.inr (raises e (Observer.accept_error gaps answering shown.piece.part along failed)))
  | @reset cut index handler _ _ _ failed =>
    obtain ⟨_, ⟨settings, registered⟩, _⟩ := route
    have answers := sound.handlers _ (List.mem_of_getElem? registered)
    have state := sound.accepts_iff.mpr (shown.piece.yStop_shape sized)
    exact ((answers.resetState _ _ state).not_raises e (outside_error failed)).elim
  | @size cut index handler _ _ y _ reset failed =>
    obtain ⟨_, ⟨settings, registered⟩, _⟩ := route
    obtain ⟨_, supplied, _⟩ := outside_ok.mp reset
    have answers := sound.handlers _ (List.mem_of_getElem? registered)
    have state := sound.accepts_iff.mpr (shown.piece.yStop_shape sized)
    obtain ⟨_, _, same, fits⟩ := answers.resetState _ _ state s.tally.world
    rw [supplied] at same
    cases same
    rw [Equation.requireSize_ok.mpr fits] at failed
    cases failed
  | refresh failed =>
    obtain ⟨_, _, _, _, kept⟩ := route
    exact (not_commit_error sound kept sized failed).elim
  | commit failed =>
    obtain ⟨_, _, kept⟩ := route
    exact (not_commit_error sound kept (shown.piece.yStop_shape sized) failed).elim
  | @narrow cut _ _ inner failed =>
    obtain ⟨fits, _⟩ := route
    have begun := fits.ahead.notAfter
    rw [fits.start] at begun
    obtain ⟨v, narrowed⟩ := shown.window.restrict_ok gaps sized begun fits.reached .refl
    rw [narrowed] at failed
    cases failed
  | worn spent => exact absurd affordable (Nat.not_le_of_gt spent)

/-- A run fails with a root that it cannot isolate, with its budget spent, or with an error that is
excused. -/
theorem Fails.cause (gaps : ∀ x : Rat, 0 ≤ Spacing.ulp x) (fails : Fails course p s e)
    (route : p.OnRoute course watches t0 s.monitor) (shown : p.Shows course.forward) (sized : p.Sized y₀.shape)
    (attended : p.Attended course.forward y₀.shape excused s.observers) (affordable : s.accepted ≤ course.budget) :
    e.IsIsolation ∨ e.IsExhaustion ∨ excused e :=
  (fails.place sound gaps route shown sized attended affordable).imp And.left (Or.imp_left And.left)

/-- What is known at every stage that a run reaches. -/
theorem Course.Sound.preserve (excused : Error Rat → Prop) (gaps : ∀ x : Rat, 0 ≤ Spacing.ulp x)
    (created : s.monitor = Monitor.create watches)
    (served : ∀ o ∈ s.observers, o.Punctual course.forward t0 ∧ ∀ e, o.Raises y₀.shape e → excused e)
    (fresh : s.journal = []) (unspent : s.accepted = 0) (path : Moves course (.opening t0 y₀, s) (q, s')) :
    q.OnRoute course watches t0 s'.monitor ∧ q.Shows course.forward ∧ q.Sized y₀.shape ∧
      q.Attended course.forward y₀.shape excused s'.observers ∧ q.Balanced course s' := by
  have start : Stage.Balanced course (.opening t0 y₀) s :=
    ⟨by rw [fresh, unspent]; rfl, unspent ▸ Nat.zero_le _, by rw [fresh]; rfl,
      fun event mem => by rw [fresh] at mem; exact absurd mem List.not_mem_nil⟩
  refine path.preserve (P := fun q u => q.OnRoute course watches t0 u.monitor ∧ q.Shows course.forward ∧
    q.Sized y₀.shape ∧ q.Attended course.forward y₀.shape excused u.observers ∧ q.Balanced course u)
    ⟨⟨rfl, congrArg Monitor.channels created⟩, trivial, rfl, served, start⟩ ?_
  intro _ _ _ _ ⟨route, shown, sized, attended, balanced⟩ move
  exact ⟨onRoute_move sound.directed move route, shows_move gaps sound.directed move route shown,
    sized_move sound move route shown sized, attended_move gaps sound.directed move route shown attended,
    balanced_move move route balanced⟩

end

namespace Engine

/-- No internal error is reachable: if the right-hand side and the handlers answer for every state of
the right size, a run that is not refused returns, or fails because a root cannot be isolated, or
because its budget of pieces is spent, or with an error that the code of an observer raises on a state
of the right size. -/
theorem integrate_safe (gaps : ∀ x : Rat, 0 ≤ Spacing.ulp x) {engine engine' : Engine ω Rat} (usable : engine.Usable)
    (implemented : engine.stepper.scheme ≠ .abstract) {equation : Equation ω Rat} (total : equation.Total)
    (handlers : ∀ watch ∈ engine.watches, watch.1.Total equation) {target : Rat} {y0 : State Rat}
    (punctual : ∀ o ∈ engine.observers, o.Punctual (decide (t0 < target)) t0) {w w' : ω}
    {r : Except (Error Rat) (Rat × State Rat)}
    (ran : (integrate equation t0 y0 target).runFrom (engine, w) = (r, engine', w')) :
    (∃ error, engine.prepare equation t0 y0 target = .error error ∧ r = .error error) ∨ (∃ final, r = .ok final) ∨
      ∃ error, r = .error error ∧
        (error.IsIsolation ∨ error.IsExhaustion ∨ ∃ o ∈ engine.observers, o.Raises y0.shape error) := by
  rcases integrate_run ran with ⟨refused, _⟩ | ⟨course, u, prepared, run, _⟩
  · exact Or.inl refused
  · cases r with
    | ok final => exact Or.inr (Or.inl ⟨final, rfl⟩)
    | error error =>
      refine Or.inr (Or.inr ⟨error, rfl, ?_⟩)
      obtain ⟨directed, same, stepper, _, _, direction⟩ := prepare_ok usable prepared
      have sound : course.Sound engine.watches t0 y0 :=
        ⟨directed, same ▸ total, stepper ▸ implemented, same ▸ accepts_of_prepare prepared, same ▸ handlers⟩
      obtain ⟨stage, v, path, fails⟩ := run_failure run
      obtain ⟨route, shown, sized, attended, balanced⟩ := sound.preserve
        (fun e => ∃ o ∈ engine.observers, o.Raises y0.shape e) gaps rfl
        (fun o mem => ⟨direction ▸ punctual o mem, fun e raised => ⟨o, mem, raised⟩⟩) rfl rfl path
      exact fails.cause sound gaps route shown sized attended balanced.affordable

end Engine

end

theorem Equation.total_steady : Equation.steady.Total :=
  ⟨fun _ _ _ w => ⟨.ofList [1], w, rfl, rfl⟩, fun w => ⟨(), w, rfl, trivial⟩, fun _ _ _ => ⟨.ofList [1], rfl, rfl⟩⟩

/-- A dip on a steady run, with one evaluation for each of its roots, and observers that are given
times of the run. -/
def Engine.watchedDip : Engine Unit Rat :=
  ((Engine.timed 1 [(.dip (1 / 3) 2, ⟨none, 1 / 100, 1, none⟩)]).addObserver
    (.sampler (.create [0, 1 / 2, 1]))).addObserver
      (.normalizer ⟨1 / 4, fun _ _ _ => pure (), 0, 0, 1 / 4, none⟩)

/-- The run fails, and only because the root of the dip cannot be isolated or the budget is spent: the
observers are served. -/
theorem Engine.safe_dip :
    letI := Spacing.gapless
    let run := (integrate .steady 0 (.ofList [0]) 1).runFrom (watchedDip, ())
    ∃ error, run.1 = .error error ∧ (error.IsIsolation ∨ error.IsExhaustion) := by
  let := Spacing.gapless
  intro run
  have usable : watchedDip.Usable :=
    ((usable_timed (by decide +kernel) (by decide +kernel)).addObserver _).addObserver _
  have handlers : ∀ watch ∈ watchedDip.watches, watch.1.Total .steady := by
    intro watch mem
    rw [List.mem_singleton.mp mem]
    exact ⟨fun _ _ _ _ w => ⟨(), w, rfl, trivial⟩, fun _ _ _ w => ⟨_, w, rfl, trivial⟩,
      fun _ _ _ _ w => ⟨.resetState, w, rfl, trivial⟩, fun _ _ _ w => ⟨.ofList [0], w, rfl, rfl⟩⟩
  have punctual : ∀ o ∈ watchedDip.observers, o.Punctual (decide ((0 : Rat) < 1)) 0 := by
    intro o mem
    rcases List.mem_cons.mp mem with rfl | mem
    · change List.Pairwise (fun s t : Rat => s ≤ t) [0, 0, 1 / 2, 1]
      norm_num
    · rw [List.mem_singleton.mp mem]
      change (0 : Rat) < 1 / 4
      norm_num
  have quiet : ∀ error, ¬ ∃ o ∈ watchedDip.observers, o.Raises [1] error := by
    rintro error ⟨o, mem, raised⟩
    rcases List.mem_cons.mp mem with rfl | mem
    · exact raised
    · rw [List.mem_singleton.mp mem] at raised
      obtain ⟨_, _, _, _, _, _, impossible⟩ := raised
      cases impossible
  have accepted : (watchedDip.prepare Equation.steady 0 (.ofList [0]) 1).isOk = true := by decide +kernel
  have failed : run.1.isOk = false := by decide +kernel
  rcases integrate_safe (fun _ => le_rfl) usable (by decide) Equation.total_steady handlers punctual (Prod.ext rfl rfl) with
    ⟨error, refused, _⟩ | ⟨final, returned⟩ | ⟨error, same, cause⟩
  · rw [refused] at accepted
    cases accepted
  · rw [show run.1 = .ok final from returned] at failed
    cases failed
  · rcases cause with isolation | exhaustion | raised
    · exact ⟨error, same, Or.inl isolation⟩
    · exact ⟨error, same, Or.inr exhaustion⟩
    · exact absurd raised (quiet error)

/-- The problem of a state at rest. -/
def Problem.atRest (y : State Rat) : Problem Unit Rat where
  name := "AtRest"
  t0 := 0
  tFinal := 1
  y0 := y
  rate _ y := y.map fun _ => 0
  solution _ := y
  handlers := []
  eventTimes := []
  rateDomain := Problem.everywhere
  stateDomain := Problem.everywhere
  solutionDomain := Problem.everywhere

theorem Problem.total_atRest (y : State Rat) : ((Problem.atRest y).toEquation (pure ())).Total := by
  have fits : ∀ (equation : Equation Unit Rat) (z : State Rat), equation.accepts z = true →
      equation.accepts (z.map fun _ => 0) = true := fun _ _ accepted => accepted
  exact ⟨fun _ z accepted w => ⟨z.map fun _ => 0, w, rfl, fits _ z accepted⟩, fun w => ⟨(), w, rfl, trivial⟩,
    fun _ z accepted => ⟨z.map fun _ => 0, rfl, fits _ z accepted⟩⟩

/-- A run can fail in another way if it is compared with a solution that has another number of
unknowns. -/
theorem Engine.tracker_misfit :
    letI := Spacing.gapless
    let equation := (Problem.atRest (.ofList [0, 0, 0])).toEquation (pure ())
    let engine := (Engine.timed 1 []).addObserver (.tracker (.create (.atRest (.ofList [0, 0]))))
    let run := (integrate equation 0 (.ofList [0, 0, 0]) 1).runFrom (engine, ())
    equation.Total ∧ engine.Usable ∧ engine.stepper.scheme = .euler ∧ engine.watches = [] ∧
      (∀ o ∈ engine.observers, o.Punctual true 0) ∧ (engine.prepare equation 0 (.ofList [0, 0, 0]) 1).isOk = true ∧
      ∃ error, run.1 = .error error ∧ ¬ error.IsIsolation ∧ ¬ error.IsExhaustion := by
  let := Spacing.gapless
  intro equation engine run
  have usable : engine.Usable := (usable_timed (by decide +kernel) (by decide +kernel)).addObserver _
  have punctual : ∀ o ∈ engine.observers, o.Punctual true 0 := by
    intro o mem
    rw [List.mem_singleton.mp mem]
    trivial
  have failed : run.1 = .error .extents := by decide +kernel
  exact ⟨Problem.total_atRest _, usable, rfl, rfl, punctual, by decide +kernel, .extents, failed, id, id⟩

end Trajectory
