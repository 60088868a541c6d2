import Mathlib.Tactic
import Trajectory.Proofs.Handover
import Trajectory.Proofs.Stage

/-!
Every run is a path of moves.

`Follows` relates a part of a run to the moves from a stage: if it succeeds there is a path to the
stage that its value stands for, and if it fails there is one to a stage with the journal that it
leaves, at which the next thing fails (`Fails`). Parts that come one after the other follow the moves
together (`follows_bind`), so that the whole run does (`run_follows`).
-/

namespace Trajectory

open Session

variable {ω β γ : Type}

/-- What a pass does with a window that has been scanned. -/
def Course.treat [Spacing Rat] (course : Course ω Rat) (leg : Leg Rat) (window : Window Rat) :
    List (Occurrence Rat) → Effect (Session ω Rat) Rat (Progress Rat)
  | [] => course.settle leg window
  | first :: rest => do
    Session.note (.located window (first :: rest))
    course.react leg window first.t (first :: rest)

theorem Course.pass_scanning [Spacing Rat] (course : Course ω Rat) (leg : Leg Rat) (window : Window Rat) :
    course.pass (.scanning leg window) = Course.scan window >>= course.treat leg window :=
  congrArg (Course.scan window >>= ·) (funext fun group => by cases group <;> rfl)

theorem Course.pass_stepping [Spacing Rat] (course : Course ω Rat) (t : Rat) (y : State Rat)
    (yp : Option (State Rat)) :
    course.pass (.stepping t y yp) =
      course.nextLeg t y yp >>= fun leg => Course.scan (.ofStep leg.step) >>= course.treat leg (.ofStep leg.step) :=
  congrArg (course.nextLeg t y yp >>= ·) (funext fun leg => Course.pass_scanning course leg (.ofStep leg.step))

variable [Spacing Rat]

/-- The ways in which a run can fail at a stage. -/
inductive Fails (course : Course ω Rat) : Stage ω → Session ω Rat → Error Rat → Prop where
  | «begin» {t y s s' e} (failed : (course.begin t y).runFrom s = (.error e, s')) : Fails course (.opening t y) s e
  | step {t y yp s s' e} (failed : (course.nextLeg t y yp).runFrom s = (.error e, s')) :
      Fails course (.stepping t y yp) s e
  | scan {leg window s s' e} (failed : (Course.scan window).runFrom s = (.error e, s')) :
      Fails course (.scanning leg window) s e
  | cut {leg window first rest s e} (failed : window.truncate first.t = .error e) :
      Fails course (.located leg window first rest) s e
  | unknown {cut o rest verdict s} (unwatched : s.monitor.channels[o.index]? = none) :
      Fails course (.asking cut (o :: rest) verdict) s (.handlerIndex o.index)
  | answer {cut o handler rest verdict s s' e}
      (failed : (outside (handler.eventOccurred cut.piece.stop cut.piece.yStop o.increasing)).runFrom s =
        (.error e, s')) :
      Fails course (.awaiting cut o handler rest verdict) s e
  | exhausted {cut last verdict s} (spent : course.budget ≤ s.accepted) :
      Fails course (.decided cut last verdict) s (.stepsExhausted course.budget cut.piece.start course.target)
  | tell {cut last verdict s s' e}
      (failed : (onObservers (Effect.forEach (Observer.accept cut.piece last))).runFrom s = (.error e, s')) :
      Fails course (.accepted cut last verdict) s e
  | reset {cut index handler s s' e}
      (failed : (outside (handler.resetState cut.piece.stop cut.piece.yStop)).runFrom s = (.error e, s')) :
      Fails course (.told cut (.replace index handler)) s e
  | size {cut index handler s s' y e}
      (reset : (outside (handler.resetState cut.piece.stop cut.piece.yStop)).runFrom s = (.ok y, s'))
      (failed : course.equation.requireSize .resetState y = .error e) :
      Fails course (.told cut (.replace index handler)) s e
  | refresh {t y atEnd s s' e} (failed : (onMonitor (Monitor.commit t y)).runFrom s = (.error e, s')) :
      Fails course (.restarting t y atEnd) s e
  | commit {cut s s' e}
      (failed : (onMonitor (Monitor.commit cut.piece.stop cut.piece.yStop)).runFrom s = (.error e, s')) :
      Fails course (.told cut .carryOn) s e
  | narrow {cut s e} (inner : cut.piece.stop ≠ cut.window.stop)
      (failed : cut.window.restrict cut.piece.stop cut.window.stop = .error e) :
      Fails course (.told cut .carryOn) s e
  /-- More pieces have been accepted than the budget allows. -/
  | worn {p s} (spent : course.budget < s.accepted) : Fails course p s .stalled

/-- From a stage, a part of a run follows the moves: to the stage that its value stands for, or to
one with the journal that it leaves when it fails, at which the next thing fails. -/
def Follows (course : Course ω Rat) (p : Stage ω) (x : Effect (Session ω Rat) Rat β) (q : β → Stage ω)
    (s : Session ω Rat) : Prop :=
  (∀ b s', x.runFrom s = (.ok b, s') → Moves course (p, s) (q b, s')) ∧
    ∀ e s', x.runFrom s = (.error e, s') →
      ∃ r u, Moves course (p, s) (r, u) ∧ u.SameAccount s' ∧ Fails course r u e

section

variable {course : Course ω Rat} {p : Stage ω} {s : Session ω Rat}

/-- Parts of a run that follow the moves one after the other do so together. -/
theorem follows_bind {x : Effect (Session ω Rat) Rat β} {f : β → Effect (Session ω Rat) Rat γ}
    {q : β → Stage ω} {r : γ → Stage ω} (first : Follows course p x q s)
    (rest : ∀ b s', x.runFrom s = (.ok b, s') → Follows course (q b) (f b) r s') :
    Follows course p (x >>= f) r s := by
  refine ⟨fun c s'' ran => ?_, fun e s'' ran => ?_⟩
  · obtain ⟨b, s', ranX, ranF⟩ := Effect.runFrom_bind_ok.mp ran
    exact (first.1 b s' ranX).trans ((rest b s' ranX).1 c s'' ranF)
  · rcases Effect.runFrom_bind_error.mp ran with ran | ⟨b, s', ranX, ranF⟩
    · exact first.2 e s'' ran
    · obtain ⟨stage, u, path, account⟩ := (rest b s' ranX).2 e s'' ranF
      exact ⟨stage, u, (first.1 b s' ranX).trans path, account⟩

/-- A part of a run that leaves the account alone follows the moves if its success is a move and its
failure a way to fail. -/
theorem follows_of_move {x : Effect (Session ω Rat) Rat β} {q : β → Stage ω}
    (silent : Silent x) (move : ∀ b s', x.runFrom s = (.ok b, s') → Move course (p, s) (q b, s'))
    (fails : ∀ e s', x.runFrom s = (.error e, s') → Fails course p s e) : Follows course p x q s :=
  ⟨fun b s' ran => .single (move b s' ran),
    fun e s' ran => ⟨p, s, .refl, silent s (.error e) s' ran, fails e s' ran⟩⟩

theorem follows_pure {b : β} {q : β → Stage ω} (path : Moves course (p, s) (q b, s)) :
    Follows course p (pure b) q s := by
  refine ⟨fun c s' ran => ?_, fun e s' ran => ?_⟩
  · rw [Effect.runFrom_pure] at ran
    cases ran
    exact path
  · rw [Effect.runFrom_pure] at ran
    cases ran

theorem follows_throw {e : Error Rat} {q : β → Stage ω} (fails : Fails course p s e) :
    Follows course p (throw e) q s := by
  refine ⟨fun c s' ran => ?_, fun e' s' ran => ?_⟩
  · rw [Effect.runFrom_throw] at ran
    cases ran
  · rw [Effect.runFrom_throw] at ran
    cases ran
    exact ⟨p, s, .refl, .refl s, fails⟩

/-- An outcome that is known beforehand follows the moves if a success is a path and a failure is a
way to fail. -/
theorem follows_lift {x : Except (Error Rat) β} {q : β → Stage ω}
    (path : ∀ b, x = .ok b → Moves course (p, s) (q b, s)) (fails : ∀ e, x = .error e → Fails course p s e) :
    Follows course p (liftM x) q s := by
  refine ⟨fun c s' ran => ?_, fun e s' ran => ?_⟩
  · obtain ⟨same, rfl⟩ := Effect.runFrom_lift_iff.mp ran
    exact path c same
  · obtain ⟨failed, rfl⟩ := Effect.runFrom_lift_iff.mp ran
    exact ⟨p, s', .refl, .refl s', fails e failed⟩

/-- A part of a run that only reads the session is the continuation at what it reads. -/
theorem follows_get {f : Session ω Rat → Effect (Session ω Rat) Rat γ} {r : γ → Stage ω}
    (rest : Follows course p (f s) r s) : Follows course p (get >>= f) r s := by
  refine follows_bind (q := fun _ => p) ⟨fun b s' ran => ?_, fun e s' ran => ?_⟩ fun b s' ran => ?_
  · rw [Effect.runFrom_get] at ran
    cases ran
    exact .refl
  · rw [Effect.runFrom_get] at ran
    cases ran
  · rw [Effect.runFrom_get] at ran
    cases ran
    exact rest

theorem follows_note {e : Entry Rat} {q : Unit → Stage ω} (path : Moves course (p, s) (q (), s.noted e)) :
    Follows course p (note e) q s := by
  refine ⟨fun b s' ran => ?_, fun e' s' ran => ?_⟩
  · rw [runFrom_note] at ran
    cases ran
    exact path
  · rw [runFrom_note] at ran
    cases ran

/-- A part of a run may be followed from what is left of it after some moves. -/
theorem Follows.after {q : Stage ω} {u : Session ω Rat} {x y : Effect (Session ω Rat) Rat β} {r : β → Stage ω}
    (rest : Follows course q y r u) (path : Moves course (p, s) (q, u)) (left : x.runFrom s = y.runFrom u) :
    Follows course p x r s := by
  refine ⟨fun b s' ran => path.trans (rest.1 b s' (left ▸ ran)), fun e s' ran => ?_⟩
  obtain ⟨stage, v, moves, account⟩ := rest.2 e s' (left ▸ ran)
  exact ⟨stage, v, path.trans moves, account⟩

private theorem answer_follows {cut : Cut} {o : Occurrence Rat} {rest : List (Occurrence Rat)}
    {verdict : Verdict ω Rat} {channel : Channel ω Rat} (watched : s.monitor.channels[o.index]? = some channel) :
    Follows course (.awaiting cut o channel.handler rest verdict)
      (do
        let action ← outside (channel.handler.eventOccurred cut.piece.stop cut.piece.yStop o.increasing)
        note (.answered o.index action)
        onMonitor (Monitor.acknowledge o.index o.t)
        pure action)
      (cut.answered o channel.handler rest verdict) s := by
  refine ⟨fun action s' ran => ?_, fun e s' ran => ?_⟩
  · obtain ⟨_, s₁, answered, later⟩ := Effect.runFrom_bind_ok.mp ran
    rw [Effect.runFrom_bind, runFrom_note] at later
    obtain ⟨_, s₃, acknowledged, last⟩ := Effect.runFrom_bind_ok.mp later
    rw [Effect.runFrom_pure] at last
    cases last
    exact .single (.answer answered acknowledged)
  · rcases Effect.runFrom_bind_error.mp ran with failed | ⟨action, s₁, answered, later⟩
    · exact ⟨_, s, .refl, sameAccount_onTally failed, .answer failed⟩
    · obtain ⟨_, _, rfl⟩ := outside_ok.mp answered
      simp [onMonitor, noted, Monitor.acknowledge_watched watched] at later

private theorem consult_follows (cut : Cut) {group : List (Occurrence Rat)} {verdict : Verdict ω Rat} :
    Follows course (.asking cut group verdict)
      (Course.consult cut.piece.stop cut.piece.yStop group verdict) (.asking cut []) s := by
  induction group generalizing verdict s with
  | nil => exact follows_pure .refl
  | cons o rest ih =>
    unfold Course.consult
    refine follows_get ?_
    cases watched : s.monitor.channels[o.index]? with
    | none => exact follows_throw (.unknown watched)
    | some channel =>
      refine follows_bind (follows_note (q := fun _ => .awaiting cut o channel.handler rest verdict)
        (.single (.ask watched))) fun _ s₁ told => ?_
      have split : ∀ f : Action → Effect (Session ω Rat) Rat (Verdict ω Rat), (do
          let action ← outside (channel.handler.eventOccurred cut.piece.stop cut.piece.yStop o.increasing)
          note (.answered o.index action)
          onMonitor (Monitor.acknowledge o.index o.t)
          f action) = (do
          let action ← outside (channel.handler.eventOccurred cut.piece.stop cut.piece.yStop o.increasing)
          note (.answered o.index action)
          onMonitor (Monitor.acknowledge o.index o.t)
          pure action) >>= f := by
        intro f
        simp only [bind_assoc, pure_bind]
      rw [runFrom_note] at told
      cases told
      simp only [split]
      refine follows_bind (answer_follows watched) fun action s₂ _ => ?_
      cases action with
      | carryOn => exact ih
      | resetDerivatives => exact ih
      | resetState => exact follows_pure .refl
      | stop => exact follows_pure .refl

private theorem dispatch_follows (cut : Cut) {last : Bool} {verdict : Verdict ω Rat} :
    Follows course (.decided cut last verdict) (dispatch course cut.piece last) (fun _ => .told cut verdict) s := by
  unfold dispatch
  refine follows_get ?_
  split
  · rename_i spent
    exact follows_bind (q := fun _ => .decided cut last verdict) (follows_throw (.exhausted spent)) fun _ _ ran => by
      rw [Effect.runFrom_throw] at ran
      cases ran
  · rename_i affordable
    have told : Follows course (.accepted cut last verdict)
        (onObservers (Effect.forEach (Observer.accept cut.piece last))) (fun _ => .told cut verdict)
        ({ s with accepted := s.accepted + 1 }.noted (.accepted cut.piece last)) :=
      follows_of_move (silent_onObservers _) (fun _ _ ran => .tell ran) fun _ _ failed => .tell failed
    refine told.after (.single (.accept (Nat.lt_of_not_le affordable))) ?_
    rw [Effect.runFrom_bind, Effect.runFrom_modify]
    exact Effect.runFrom_bind _ _ _

private theorem restart_follows (t : Rat) (y : State Rat) (atEnd : Bool) :
    Follows course (.restarting t y atEnd) (Course.restart t y atEnd) Progress.stage s := by
  unfold Course.restart
  refine follows_bind (q := fun _ => if atEnd then .ended t y else .stepping t y none)
    (follows_of_move (silent_onMonitor _) (fun _ _ ran => .refresh ran) fun _ _ failed => .refresh failed)
    fun _ s' _ => ?_
  cases atEnd
  · exact follows_pure .refl
  · exact follows_pure .refl

private theorem resumed_of_whole {cut : Cut} (whole : cut.piece.stop = cut.window.stop) :
    cut.Resumed (ω := ω) (Progress.stage (if cut.leg.last then .finished cut.piece.stop cut.piece.yStop
      else .onward (.stepping cut.piece.stop cut.piece.yStop (some cut.leg.step.ypNext)))) := by
  cases last : cut.leg.last with
  | true => exact .ended whole last
  | false => exact .stepping whole last

private theorem resume_follows (cut : Cut) :
    Follows course (.told cut .carryOn)
      (do
        onMonitor (Monitor.commit cut.piece.stop cut.piece.yStop)
        if cut.piece.stop == cut.window.stop then
          if cut.leg.last then return .finished cut.piece.stop cut.piece.yStop
          else return .onward (.stepping cut.piece.stop cut.piece.yStop (some cut.leg.step.ypNext))
        else
          let rest ← cut.window.restrict cut.piece.stop cut.window.stop
          return .onward (.scanning cut.leg rest))
      Progress.stage s := by
  by_cases whole : cut.piece.stop = cut.window.stop
  · rw [if_pos (beq_iff_eq.mpr whole), ← apply_ite pure]
    refine follows_of_move (silent_bind (silent_onMonitor _) fun _ => silent_pure _) (fun progress s' ran => ?_)
      fun e s' ran => ?_
    · obtain ⟨_, s₁, committed, later⟩ := Effect.runFrom_bind_ok.mp ran
      rw [Effect.runFrom_pure] at later
      cases later
      exact .resume committed (resumed_of_whole whole)
    · rcases Effect.runFrom_bind_error.mp ran with failed | ⟨_, _, _, impossible⟩
      · exact .commit failed
      · cases impossible
  · rw [if_neg fun same => whole (beq_iff_eq.mp same)]
    refine follows_of_move (silent_bind (silent_onMonitor _) fun _ => silent_bind (silent_lift _) fun _ =>
      silent_pure _) (fun progress s' ran => ?_) fun e s' ran => ?_
    · obtain ⟨_, s₁, committed, later⟩ := Effect.runFrom_bind_ok.mp ran
      obtain ⟨rest, s₂, restricted, last⟩ := Effect.runFrom_bind_ok.mp later
      obtain ⟨narrowed, rfl⟩ := Effect.runFrom_lift_iff.mp restricted
      rw [Effect.runFrom_pure] at last
      cases last
      exact .resume committed (.scanning whole narrowed)
    · rcases Effect.runFrom_bind_error.mp ran with failed | ⟨_, s₁, _, later⟩
      · exact .commit failed
      · rcases Effect.runFrom_bind_error.mp later with failed | ⟨_, _, _, impossible⟩
        · exact .narrow whole (Effect.runFrom_lift_iff.mp failed).1
        · cases impossible

private theorem replace_follows (cut : Cut) {index : Nat} {handler : Handler ω Rat} :
    Follows course (.told cut (.replace index handler))
      (do
        let y ← outside (handler.resetState cut.piece.stop cut.piece.yStop)
        course.equation.requireSize .resetState y
        note (.replaced index cut.piece.stop y)
        Course.restart cut.piece.stop y cut.atEnd)
      Progress.stage s := by
  have checked : Follows course (.told cut (.replace index handler))
      (do
        let y ← outside (handler.resetState cut.piece.stop cut.piece.yStop)
        course.equation.requireSize .resetState y
        note (.replaced index cut.piece.stop y)
        pure y)
      (fun y => .restarting cut.piece.stop y cut.atEnd) s := by
    refine ⟨fun y s' ran => ?_, fun e s' ran => ?_⟩
    · obtain ⟨_, s₁, reset, later⟩ := Effect.runFrom_bind_ok.mp ran
      obtain ⟨_, s₂, sized, last⟩ := Effect.runFrom_bind_ok.mp later
      obtain ⟨fits, rfl⟩ := Effect.runFrom_lift_iff.mp sized
      rw [Effect.runFrom_bind, runFrom_note] at last
      cases last
      exact .single (.replace reset fits)
    · rcases Effect.runFrom_bind_error.mp ran with failed | ⟨y, s₁, reset, later⟩
      · exact ⟨_, s, .refl, sameAccount_onTally failed, .reset failed⟩
      · refine ⟨_, s, .refl, ?_⟩
        rcases Effect.runFrom_bind_error.mp later with failed | ⟨_, s₂, _, last⟩
        · obtain ⟨unfit, rfl⟩ := Effect.runFrom_lift_iff.mp failed
          exact ⟨sameAccount_onTally reset, .size reset unfit⟩
        · rw [Effect.runFrom_bind, runFrom_note] at last
          cases last
  have both := follows_bind checked fun y s' _ => restart_follows cut.piece.stop y cut.atEnd
  simpa only [bind_assoc, pure_bind] using both

private theorem react_follows {leg : Leg Rat} {window : Window Rat} {first : Occurrence Rat}
    {rest : List (Occurrence Rat)} :
    Follows course (.located leg window first rest) (course.react leg window first.t (first :: rest))
      Progress.stage s := by
  unfold Course.react
  refine follows_bind (q := fun piece => .asking ⟨leg, window, piece⟩ (first :: rest) .carryOn)
    (follows_lift (fun piece cut => .single (.cut cut)) fun _ failed => .cut failed) fun piece s₁ cut => ?_
  obtain ⟨truncated, rfl⟩ := Effect.runFrom_lift_iff.mp cut
  obtain ⟨_, _, stop, _, _⟩ := Window.truncate_ok truncated
  rw [← stop]
  refine follows_bind (consult_follows ⟨leg, window, piece⟩) fun verdict s₂ _ => ?_
  refine follows_bind ((dispatch_follows ⟨leg, window, piece⟩).after (.single .decide) rfl)
    fun _ s₃ _ => ?_
  cases verdict with
  | carryOn => exact resume_follows ⟨leg, window, piece⟩
  | restart => exact (restart_follows _ _ _).after (.single .restart) rfl
  | stop =>
    exact follows_bind (q := fun _ => .ended piece.stop piece.yStop)
      (follows_note (.single .stop)) fun _ s₄ _ => follows_pure .refl
  | replace index handler => exact replace_follows ⟨leg, window, piece⟩

private theorem settle_follows {leg : Leg Rat} {window : Window Rat} :
    Follows course (.decided ⟨leg, window, window⟩ leg.last .carryOn) (course.settle leg window) Progress.stage s := by
  unfold Course.settle
  refine follows_bind (dispatch_follows ⟨leg, window, window⟩) fun _ s₁ _ => ?_
  have resumed : Follows course _ _ _ s₁ := resume_follows ⟨leg, window, window⟩
  simpa using resumed

private theorem window_follows {leg : Leg Rat} {window : Window Rat} :
    Follows course (.scanning leg window) (Course.scan window >>= course.treat leg window) Progress.stage s := by
  refine ⟨fun progress s' ran => ?_, fun e s' ran => ?_⟩
  · obtain ⟨group, s₁, scanned, later⟩ := Effect.runFrom_bind_ok.mp ran
    cases group with
    | nil => exact .head (.clear scanned) (settle_follows.1 progress s' later)
    | cons first rest =>
      rw [Course.treat, Effect.runFrom_bind, runFrom_note] at later
      exact .head (.locate scanned) (react_follows.1 progress s' later)
  · rcases Effect.runFrom_bind_error.mp ran with failed | ⟨group, s₁, scanned, later⟩
    · exact ⟨_, s, .refl, sameAccount_scan failed, .scan failed⟩
    · cases group with
      | nil =>
        obtain ⟨r, u, path, account⟩ := settle_follows.2 e s' later
        exact ⟨r, u, .head (.clear scanned) path, account⟩
      | cons first rest =>
        rw [Course.treat, Effect.runFrom_bind, runFrom_note] at later
        obtain ⟨r, u, path, account⟩ := react_follows.2 e s' later
        exact ⟨r, u, .head (.locate scanned) path, account⟩

/-- A pass follows the moves between the two points where it may stop. -/
theorem pass_follows {phase : Phase Rat} : Follows course phase.stage (course.pass phase) Progress.stage s := by
  cases phase with
  | scanning leg window =>
    rw [Course.pass_scanning]
    exact window_follows
  | stepping t y yp =>
    rw [Course.pass_stepping]
    exact follows_bind (q := fun leg => .scanning leg (.ofStep leg.step))
      (follows_of_move (fun _ _ _ => sameAccount_nextLeg) (fun _ _ taken => .step taken) fun _ _ failed => .step failed)
      fun _ _ _ => window_follows

/-- A part of a run that accepts so many pieces if it succeeds. -/
def Accepts (n : Nat) (x : Effect (Session ω Rat) Rat β) : Prop :=
  ∀ s b s', x.runFrom s = (.ok b, s') → s'.accepted = s.accepted + n

omit [Spacing Rat] in
theorem accepts_of_silent {x : Effect (Session ω Rat) Rat β} (silent : Silent x) : Accepts 0 x :=
  fun s _ s' ran => (silent s _ s' ran).2

omit [Spacing Rat] in
theorem accepts_bind {m n : Nat} {x : Effect (Session ω Rat) Rat β} {f : β → Effect (Session ω Rat) Rat γ}
    (first : Accepts m x) (rest : ∀ b, Accepts n (f b)) : Accepts (m + n) (x >>= f) := by
  intro s c s'' ran
  obtain ⟨b, s', ranX, ranF⟩ := Effect.runFrom_bind_ok.mp ran
  rw [rest b s' c s'' ranF, first s b s' ranX, Nat.add_assoc]

omit [Spacing Rat] in
theorem accepts_after {n : Nat} {x : Effect (Session ω Rat) Rat β} {f : β → Effect (Session ω Rat) Rat γ}
    (first : Accepts 0 x) (rest : ∀ b, Accepts n (f b)) : Accepts n (x >>= f) := by
  have both := accepts_bind first rest
  rwa [Nat.zero_add] at both

omit [Spacing Rat] in
theorem accepts_note (e : Entry Rat) : Accepts (ω := ω) 0 (note e) := by
  intro s b s' ran
  rw [runFrom_note] at ran
  cases ran
  rfl

omit [Spacing Rat] in
theorem accepts_get : Accepts (ω := ω) 0 get := by
  intro s b s' ran
  rw [Effect.runFrom_get] at ran
  cases ran
  rfl

omit [Spacing Rat] in
theorem accepts_throw {n : Nat} {e : Error Rat} : Accepts (ω := ω) (β := β) n (throw e) := by
  intro s b s' ran
  rw [Effect.runFrom_throw] at ran
  cases ran

omit [Spacing Rat] in
private theorem consult_accepts {t : Rat} {y : State Rat} (group : List (Occurrence Rat)) (verdict : Verdict ω Rat) :
    Accepts 0 (Course.consult t y group verdict) := by
  induction group generalizing verdict with
  | nil => exact accepts_of_silent (silent_pure _)
  | cons o rest ih =>
    unfold Course.consult
    refine accepts_after accepts_get fun u => ?_
    cases u.monitor.channels[o.index]? with
    | none => exact accepts_throw
    | some channel =>
      refine accepts_after (accepts_note _) fun _ => ?_
      refine accepts_after (accepts_of_silent (silent_onTally _)) fun action => ?_
      refine accepts_after (accepts_note _) fun _ => ?_
      refine accepts_after (accepts_of_silent (silent_onMonitor _)) fun _ => ?_
      cases action with
      | carryOn => exact ih _
      | resetDerivatives => exact ih _
      | resetState => exact accepts_of_silent (silent_pure _)
      | stop => exact accepts_of_silent (silent_pure _)

private theorem dispatch_accepts (piece : Window Rat) (last : Bool) : Accepts 1 (dispatch course piece last) := by
  intro s b s' ran
  rw [dispatch, Effect.runFrom_bind, Effect.runFrom_get] at ran
  dsimp only at ran
  split at ran
  · rw [Effect.runFrom_bind, Effect.runFrom_throw] at ran
    cases ran
  · rw [Effect.runFrom_bind, Effect.runFrom_modify] at ran
    dsimp only at ran
    rw [Effect.runFrom_bind, runFrom_note] at ran
    exact (sameAccount_onObservers ran).2

omit [Spacing Rat] in
private theorem restart_accepts (t : Rat) (y : State Rat) (atEnd : Bool) :
    Accepts (ω := ω) 0 (Course.restart t y atEnd) := by
  refine accepts_after (accepts_of_silent (silent_onMonitor _)) fun _ => ?_
  cases atEnd <;> exact accepts_of_silent (silent_pure _)

private theorem settle_accepts (leg : Leg Rat) (window : Window Rat) : Accepts 1 (course.settle leg window) := by
  refine accepts_bind (n := 0) (dispatch_accepts window leg.last) fun _ => ?_
  refine accepts_after (accepts_of_silent (silent_onMonitor _)) fun _ => ?_
  cases leg.last <;> exact accepts_of_silent (silent_pure _)

private theorem react_accepts (leg : Leg Rat) (window : Window Rat) (t : Rat) (group : List (Occurrence Rat)) :
    Accepts 1 (course.react leg window t group) := by
  refine accepts_after (accepts_of_silent (silent_lift _)) fun piece => ?_
  refine accepts_after (consult_accepts _ _) fun verdict => ?_
  refine accepts_bind (n := 0) (dispatch_accepts _ _) fun _ => ?_
  cases verdict with
  | stop => exact accepts_after (accepts_note _) fun _ => accepts_of_silent (silent_pure _)
  | restart => exact restart_accepts _ _ _
  | replace index handler =>
    refine accepts_after (accepts_of_silent (silent_onTally _)) fun y => ?_
    refine accepts_after (accepts_of_silent (silent_lift _)) fun _ => ?_
    exact accepts_after (accepts_note _) fun _ => restart_accepts _ _ _
  | carryOn =>
    refine accepts_after (accepts_of_silent (silent_onMonitor _)) fun _ => ?_
    split
    · cases leg.last <;> exact accepts_of_silent (silent_pure _)
    · exact accepts_of_silent (silent_bind (silent_lift _) fun _ => silent_pure _)

/-- Every pass accepts exactly one piece. -/
theorem pass_accepts (phase : Phase Rat) : Accepts 1 (course.pass phase) := by
  have window : ∀ leg w, Accepts 1 (Course.scan w >>= course.treat leg w) := by
    intro leg w
    refine accepts_after (accepts_of_silent fun _ _ _ => sameAccount_scan) fun group => ?_
    cases group with
    | nil => exact settle_accepts _ _
    | cons first rest => exact accepts_after (accepts_note _) fun _ => react_accepts _ _ _ _
  cases phase with
  | scanning leg w =>
    rw [Course.pass_scanning]
    exact window leg w
  | stepping t y yp =>
    rw [Course.pass_stepping]
    exact accepts_after (accepts_of_silent fun _ _ _ => sameAccount_nextLeg) fun _ => window _ _

/-- Passes follow the moves up to the end of the run. They come to an end before it only if more
pieces have been accepted than the budget allows. -/
theorem passes_follows (left : Nat) (phase : Phase Rat) (enough : course.budget < s.accepted + left) :
    Follows course phase.stage (course.passes left phase) (fun final => .ended final.1 final.2) s := by
  induction left generalizing phase s with
  | zero => exact follows_throw (.worn enough)
  | succ left ih =>
    unfold Course.passes
    refine follows_bind pass_follows fun progress s₁ ran => ?_
    cases progress with
    | finished t y => exact follows_pure .refl
    | onward phase =>
      refine ih _ ?_
      rw [pass_accepts _ _ _ _ ran]
      omega

omit [Spacing Rat] in
/-- What comes before the first step leaves the account alone. -/
theorem silent_begin (t : Rat) (y : State Rat) : Silent (course.begin t y) :=
  silent_bind (silent_onTally (course.equation.call t y)) fun yp =>
    silent_bind (silent_lift (course.equation.requireSize .derivative yp)) fun _ =>
      silent_bind (silent_onMonitor (Monitor.init t y course.target)) fun _ =>
        silent_bind (silent_onObservers (Effect.forEach (Observer.start t y course.target))) fun _ => silent_pure yp

theorem begin_follows {t : Rat} {y : State Rat} :
    Follows course (.opening t y) (course.begin t y) (fun yp => .stepping t y (some yp)) s := by
  refine follows_of_move (silent_begin t y) (fun yp s' ran => ?_) fun _ _ failed => .begin failed
  obtain ⟨_, s₁, derivative, ran₁⟩ := Effect.runFrom_bind_ok.mp ran
  obtain ⟨_, s₂, sized, ran₂⟩ := Effect.runFrom_bind_ok.mp ran₁
  obtain ⟨fits, rfl⟩ := Effect.runFrom_lift_iff.mp sized
  obtain ⟨_, s₃, watched, ran₃⟩ := Effect.runFrom_bind_ok.mp ran₂
  obtain ⟨_, s₄, observed, ran₄⟩ := Effect.runFrom_bind_ok.mp ran₃
  rw [Effect.runFrom_pure] at ran₄
  cases ran₄
  exact .open derivative fits watched observed

/-- A run follows the moves from its initial point to the one where it returns. -/
theorem run_follows {t : Rat} {y : State Rat} :
    Follows course (.opening t y) (course.run t y) (fun final => .ended final.1 final.2) s := by
  have whole : Follows course (.opening t y) _ _ s := follows_bind begin_follows fun yp s' _ =>
    passes_follows (course.budget + 1) (.stepping t y (some yp)) (by omega)
  rw [Course.run_eq]
  exact whole

end

end Trajectory
