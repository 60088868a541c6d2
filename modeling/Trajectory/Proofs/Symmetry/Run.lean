import Mathlib.Tactic
import Trajectory.Proofs.Follows
import Trajectory.Proofs.Symmetry.Monitor
import Trajectory.Proofs.Symmetry.Observer

/-!
Runs under a symmetry.

A session and its image (`Session.Image`) take the same turns: a pass from images ends in the image of
what the pass ends in, with the image of the journal (`Course.agree_pass`), and so does a whole run
(`Course.agree_run`). Each lemma follows the text of the part of the loop that it is about. What a run
sets at its start, the direction of the monitor and the progress of the observers, need not be an image
before (`Session.leads_init`, `Session.leads_start`).
-/

namespace Trajectory

variable {ω β β' : Type} {sym : Symmetry} {watching underway : Prop}

/-- The image of an entry of a journal. -/
def Entry.image (sym : Symmetry) : Entry Rat → Entry Rat
  | .located window group => .located (window.image sym) (group.map (Occurrence.image sym))
  | .asked o y => .asked (o.image sym) y
  | .answered index action => .answered index action
  | .accepted piece last => .accepted (piece.image sym) last
  | .replaced index t y => .replaced index (sym.time t) y
  | .stopped t => .stopped (sym.time t)

/-- The image of a step that is being scanned. -/
def Leg.image (sym : Symmetry) (leg : Leg Rat) : Leg Rat := ⟨leg.step.image sym, leg.last⟩

/-- The image of where a run stands. -/
def Phase.image (sym : Symmetry) : Phase Rat → Phase Rat
  | .stepping t y yp => .stepping (sym.time t) y (yp.map sym.rate)
  | .scanning leg window => .scanning (leg.image sym) (window.image sym)

/-- The image of the outcome of a pass. -/
def Progress.image (sym : Symmetry) : Progress Rat → Progress Rat
  | .finished t y => .finished (sym.time t) y
  | .onward phase => .onward (phase.image sym)

/-- The image of a verdict. -/
def Verdict.image (sym : Symmetry) : Verdict ω Rat → Verdict ω Rat
  | .carryOn => .carryOn
  | .restart => .restart
  | .replace index handler => .replace index (handler.image sym index)
  | .stop => .stop

/-- The image of a course. -/
def Course.image (sym : Symmetry) (course : Course ω Rat) : Course ω Rat where
  equation := course.equation.image sym
  stepper := course.stepper
  h := sym.time course.h
  target := sym.time course.target
  forward := sym.way course.forward
  budget := course.budget

/-- A session and the one in its place, before the monitor has been prepared or after it (`watching`),
and before the observers have been told of the start or after it (`underway`). -/
structure Session.Image (sym : Symmetry) (watching underway : Prop) (s s' : Session ω Rat) : Prop where
  tally : s'.tally = s.tally
  monitor : s.monitor.Image sym watching s'.monitor
  observers : Indexed (fun _ => Observer.Image sym underway) 0 s.observers s'.observers
  accepted : s'.accepted = s.accepted
  entries : s'.latestEntries = s.latestEntries.map (Entry.image sym)

theorem Verdict.isStop_image (verdict : Verdict ω Rat) : (verdict.image sym).isStop = verdict.isStop := by
  cases verdict <;> rfl

namespace Session

variable {s s' : Session ω Rat} {ok : β → β' → Prop}

theorem Image.world (image : s.Image sym watching underway s') : s.tally.world = s'.tally.world := by rw [image.tally]

theorem agree_onTally {x : Effect (Tally ω) Rat β} {x' : Effect (Tally ω) Rat β'}
    (agree : x.Agree (Error.Alike sym) Eq ok x') :
    (onTally x).Agree (Error.Alike sym) (Image sym watching underway) ok (onTally x') :=
  Effect.agree_within (fun _ _ image => image.tally.symm)
    (fun _ _ _ _ image same => { image with tally := same.symm }) agree

theorem agree_outside {x : Effect ω Rat β} {x' : Effect ω Rat β'} (agree : x.Agree (Error.Alike sym) Eq ok x') :
    (outside x).Agree (Error.Alike sym) (Image sym watching underway) ok (outside x') :=
  agree_onTally (Tally.agree_outside agree)

/-- A session in which a monitor and the caller's state have been replaced. -/
theorem Image.withMonitor {earlier : Prop} (image : s.Image sym earlier underway s') {p p' : Monitor ω Rat × ω}
    (together : Effect.Beside (Monitor.Image sym watching) p p') :
    Image sym watching underway { s with monitor := p.1, tally := { s.tally with world := p.2 } }
      { s' with monitor := p'.1, tally := { s'.tally with world := p'.2 } } where
  tally := by
    dsimp only
    rw [image.tally, together.2]
  monitor := together.1
  observers := image.observers
  accepted := image.accepted
  entries := image.entries

/-- A session in which observers and the caller's state have been replaced. -/
theorem Image.withObservers {earlier : Prop} (image : s.Image sym watching earlier s')
    {p p' : List (Observer ω Rat) × ω}
    (together : Effect.Beside (Indexed (fun _ => Observer.Image sym underway) 0) p p') :
    Image sym watching underway { s with observers := p.1, tally := { s.tally with world := p.2 } }
      { s' with observers := p'.1, tally := { s'.tally with world := p'.2 } } where
  tally := by
    dsimp only
    rw [image.tally, together.2]
  monitor := image.monitor
  observers := together.1
  accepted := image.accepted
  entries := image.entries

theorem agree_onMonitor {x : Effect (Monitor ω Rat × ω) Rat β} {x' : Effect (Monitor ω Rat × ω) Rat β'}
    (agree : x.Agree (Error.Alike sym) (Effect.Beside (Monitor.Image sym watching)) ok x') :
    (onMonitor x).Agree (Error.Alike sym) (Image sym watching underway) ok (onMonitor x') :=
  Effect.agree_within (fun _ _ image => ⟨image.monitor, image.world⟩)
    (fun _ _ _ _ image together => image.withMonitor together) agree

theorem agree_onObservers {x : Effect (List (Observer ω Rat) × ω) Rat β}
    {x' : Effect (List (Observer ω Rat) × ω) Rat β'}
    (agree : x.Agree (Error.Alike sym) (Effect.Beside (Indexed (fun _ => Observer.Image sym underway) 0)) ok x') :
    (onObservers x).Agree (Error.Alike sym) (Image sym watching underway) ok (onObservers x') :=
  Effect.agree_within (fun _ _ image => ⟨image.observers, image.world⟩)
    (fun _ _ _ _ image together => image.withObservers together) agree

/-- The monitor and the one in its place are prepared for a run and for its image. -/
theorem leads_init {t0 target : Rat} (different : t0 ≠ target) (y0 : State Rat) :
    (onMonitor (Monitor.init t0 y0 target)).Leads (Error.Alike sym) (Image (ω := ω) sym watching underway)
      (Image sym True underway) (fun _ _ => True) (onMonitor (Monitor.init (sym.time t0) y0 (sym.time target))) :=
  Effect.leads_within (fun _ _ image => ⟨image.monitor, image.world⟩)
    (fun _ _ _ _ image together => image.withMonitor together)
    (fun _ _ _ _ image together => image.withMonitor together) (Monitor.leads_init different y0)

/-- The observers and those in their places are told of the start of a run and of its image. -/
theorem leads_start {t0 target : Rat} (different : t0 ≠ target) (y0 : State Rat) :
    (onObservers (Effect.forEach (Observer.start t0 y0 target))).Leads (Error.Alike sym)
      (Image (ω := ω) sym watching False) (Image sym watching True) (fun _ _ => True)
      (onObservers (Effect.forEach (Observer.start (sym.time t0) y0 (sym.time target)))) := by
  refine Effect.leads_within (fun _ _ image => ⟨image.observers, image.world⟩)
    (fun _ _ _ _ image together => image.withObservers together)
    (fun _ _ _ _ image together => image.withObservers together) (Effect.leads_forEach ?_ ?_ 0)
  · exact fun _ _ _ w image => Observer.agree_start different y0 image w
  · exact fun _ _ _ image => image.mono fun _ => trivial

theorem agree_note (entry : Entry Rat) :
    (note entry).Agree (Error.Alike sym) (Image (ω := ω) sym watching underway) (fun _ _ => True)
      (note (entry.image sym)) := by
  refine Effect.agree_modify fun s s' image => { image with entries := ?_ }
  dsimp only
  rw [image.entries]
  rfl

variable [Spacing Rat]

theorem agree_dispatch (course : Course ω Rat) (piece : Window Rat) (last : Bool) :
    (dispatch course piece last).Agree (Error.Alike sym) (Image sym watching True) (fun _ _ => True)
      (dispatch (course.image sym) (piece.image sym) last) := by
  have told : (do
      modify fun s => { s with accepted := s.accepted + 1 }
      note (.accepted piece last)
      onObservers (Effect.forEach (Observer.accept piece last)) : Effect (Session ω Rat) Rat Unit).Agree
        (Error.Alike sym) (Image sym watching True) (fun _ _ => True) (do
      modify fun s => { s with accepted := s.accepted + 1 }
      note (.accepted (piece.image sym) last)
      onObservers (Effect.forEach (Observer.accept (piece.image sym) last))) := by
    refine Effect.agree_bind (Effect.agree_modify fun s s' image => { image with accepted := ?_ }) fun _ _ _ => ?_
    · dsimp only
      rw [image.accepted]
    · exact Effect.agree_bind (agree_note _) fun _ _ _ =>
        agree_onObservers (Effect.agree_forEach (fun _ => Observer.agree_accept piece last) 0)
  unfold dispatch
  refine Effect.agree_bind Effect.agree_get ?_
  intro s s' image
  rw [image.accepted]
  exact Effect.agree_ite Iff.rfl (fun _ => Effect.agree_throw (Error.alike_image rfl)) fun _ => told

end Session

namespace Course

variable {course : Course ω Rat} {y y0 : State Rat}

theorem isLast_image (course : Course ω Rat) (t : Rat) : (course.image sym).isLast (sym.time t) = course.isLast t := by
  rw [isLast, isLast, image]
  dsimp only
  rw [← sym.time_add, ← sym.time_sub, sym.runSign_mul_time, Scalar.abs_rat, Scalar.abs_rat, sym.abs_time]

theorem matched_requireSize (course : Course ω Rat) (what : Quantity) {y y' : State Rat} (same : y'.shape = y.shape)
    (size : y'.size = y.size) :
    Matched (Error.Alike sym) Eq (course.equation.requireSize what y)
      ((course.image sym).equation.requireSize what y') := by
  have accepts : (course.image sym).equation.accepts y' = course.equation.accepts y := by
    rw [Equation.accepts, Equation.accepts, same]
    rfl
  rw [Equation.requireSize, Equation.requireSize, accepts, size]
  exact .refl (Error.alike_refl sym) _

/-- The next step of the image of a course is the image of the next step. -/
theorem agree_nextLeg (course : Course ω Rat) (t : Rat) (y : State Rat) (yp : Option (State Rat)) :
    (course.nextLeg t y yp).Agree (Error.Alike sym) (Session.Image sym watching underway) (fun l l' => l' = l.image sym)
      ((course.image sym).nextLeg (sym.time t) y (yp.map sym.rate)) := by
  have size : (if course.isLast t = true then (course.image sym).target - sym.time t else (course.image sym).h) =
      sym.time (if course.isLast t = true then course.target - t else course.h) := by
    split
    · exact (sym.time_sub _ _).symm
    · rfl
  unfold nextLeg
  rw [isLast_image]
  dsimp only
  rw [size]
  refine Effect.agree_bind (Session.agree_onTally (Stepper.agree_advance t y _ yp)) ?_
  rintro step _ rfl
  refine Effect.agree_pure ?_
  split <;> rfl

/-- The members of the image of a group decide the image of what the members of the group decide. -/
theorem agree_consult (t : Rat) (y : State Rat) (group : List (Occurrence Rat)) (verdict : Verdict ω Rat) :
    (consult t y group verdict).Agree (Error.Alike sym) (Session.Image sym watching underway)
      (fun v v' => v' = v.image sym)
      (consult (sym.time t) y (group.map (Occurrence.image sym)) (verdict.image sym)) := by
  induction group generalizing verdict with
  | nil => exact Effect.agree_pure rfl
  | cons o rest ih =>
    rw [List.map_cons]
    unfold consult
    refine Effect.agree_bind Effect.agree_get ?_
    intro s s' image
    have index : (o.image sym).index = o.index := rfl
    rw [index]
    rcases image.monitor.channels.getElem? o.index with ⟨absent, absent'⟩ | ⟨c, c', known, known', related⟩
    · rw [absent, absent']
      exact Effect.agree_throw (Error.alike_refl sym _)
    rw [Nat.zero_add] at related
    rw [known, known']
    dsimp only
    refine Effect.agree_bind (Session.agree_note (.asked o y)) fun _ _ _ => ?_
    rw [related.handler]
    refine Effect.agree_bind (Session.agree_outside (c.handler.agree_eventOccurred t y o.increasing)) ?_
    rintro action _ rfl
    refine Effect.agree_bind (Session.agree_note (.answered o.index action)) fun _ _ _ => ?_
    refine Effect.agree_bind (Session.agree_onMonitor (Monitor.agree_acknowledge o.index o.t)) fun _ _ _ => ?_
    cases action with
    | stop => exact Effect.agree_pure rfl
    | resetState => exact Effect.agree_pure rfl
    | resetDerivatives => exact ih .restart
    | carryOn => exact ih verdict

variable [Spacing Rat]

theorem agree_settle (course : Course ω Rat) (leg : Leg Rat) (window : Window Rat) :
    (course.settle leg window).Agree (Error.Alike sym) (Session.Image sym True True) (fun p p' => p' = p.image sym)
      ((course.image sym).settle (leg.image sym) (window.image sym)) := by
  unfold settle
  refine Effect.agree_bind (Session.agree_dispatch course window leg.last) fun _ _ _ => ?_
  refine Effect.agree_bind (Session.agree_onMonitor (Monitor.agree_commit window.stop window.yStop)) fun _ _ _ => ?_
  exact Effect.agree_ite Iff.rfl (fun _ => Effect.agree_pure rfl) fun _ => Effect.agree_pure rfl

omit [Spacing Rat] in
theorem agree_restart (t : Rat) (y : State Rat) (atEnd : Bool) :
    (restart t y atEnd).Agree (Error.Alike sym) (Session.Image (ω := ω) sym watching underway)
      (fun p p' => p' = p.image sym)
      (restart (sym.time t) y atEnd) := by
  unfold restart
  refine Effect.agree_bind (Session.agree_onMonitor (Monitor.agree_commit t y)) fun _ _ _ => ?_
  exact Effect.agree_ite Iff.rfl (fun _ => Effect.agree_pure rfl) fun _ => Effect.agree_pure rfl

/-- The reaction to the image of a group is the image of the reaction to the group. -/
theorem agree_react (course : Course ω Rat) (leg : Leg Rat) (window : Window Rat) (t : Rat)
    (group : List (Occurrence Rat)) :
    (course.react leg window t group).Agree (Error.Alike sym) (Session.Image sym True True)
      (fun p p' => p' = p.image sym)
      ((course.image sym).react (leg.image sym) (window.image sym) (sym.time t)
        (group.map (Occurrence.image sym))) := by
  have atEnd : ((leg.image sym).last && sym.time t == (leg.image sym).step.tNext) = (leg.last && t == leg.step.tNext) :=
    congrArg _ (sym.time_beq t leg.step.tNext)
  have atStop : (sym.time t == (window.image sym).stop) = (t == window.stop) := sym.time_beq t window.stop
  unfold react
  rw [atEnd, atStop]
  refine Effect.agree_bind (Effect.agree_lift (window.matched_truncate t)) ?_
  rintro piece _ rfl
  dsimp only
  refine Effect.agree_bind (agree_consult t piece.yStop group .carryOn) ?_
  rintro verdict _ rfl
  rw [Verdict.isStop_image]
  refine Effect.agree_bind (Session.agree_dispatch course piece _) fun _ _ _ => ?_
  cases verdict with
  | stop =>
    exact Effect.agree_bind (Session.agree_note (.stopped t)) fun _ _ _ => Effect.agree_pure rfl
  | replace index handler =>
    refine Effect.agree_bind (Session.agree_outside (handler.agree_resetState t piece.yStop)) ?_
    rintro y _ rfl
    refine Effect.agree_bind (Effect.agree_lift (course.matched_requireSize _ rfl rfl)) fun _ _ _ => ?_
    exact Effect.agree_bind (Session.agree_note (.replaced index t y)) fun _ _ _ => agree_restart t y _
  | restart => exact agree_restart t piece.yStop _
  | carryOn =>
    refine Effect.agree_bind (Session.agree_onMonitor (Monitor.agree_commit t piece.yStop)) fun _ _ _ => ?_
    refine Effect.agree_ite Iff.rfl (fun _ => ?_) fun _ => ?_
    · exact Effect.agree_ite Iff.rfl (fun _ => Effect.agree_pure rfl) fun _ => Effect.agree_pure rfl
    · refine Effect.agree_bind (Effect.agree_lift (window.matched_restrict t window.stop)) ?_
      rintro rest _ rfl
      exact Effect.agree_pure rfl

theorem agree_scan (window : Window Rat) :
    (scan window).Agree (Error.Alike sym) (Session.Image (ω := ω) sym True underway)
      (fun l l' => l' = l.map (Occurrence.image sym)) (scan (window.image sym)) := by
  unfold scan
  refine Effect.agree_bind Effect.agree_get ?_
  intro s s' image
  have alike : s'.monitor.channels.isEmpty = s.monitor.channels.isEmpty := by
    rw [Bool.eq_iff_iff, List.isEmpty_iff_length_eq_zero, List.isEmpty_iff_length_eq_zero,
      image.monitor.channels.length_eq]
  rw [alike]
  exact Effect.agree_ite Iff.rfl (fun _ => Effect.agree_pure rfl) fun _ =>
    Session.agree_onMonitor (Monitor.agree_scan window)

theorem agree_treat (course : Course ω Rat) (leg : Leg Rat) (window : Window Rat) (group : List (Occurrence Rat)) :
    (course.treat leg window group).Agree (Error.Alike sym) (Session.Image sym True True) (fun p p' => p' = p.image sym)
      ((course.image sym).treat (leg.image sym) (window.image sym) (group.map (Occurrence.image sym))) := by
  cases group with
  | nil => exact agree_settle course leg window
  | cons first rest =>
    exact Effect.agree_bind (Session.agree_note (.located window (first :: rest))) fun _ _ _ =>
      agree_react course leg window first.t (first :: rest)

/-- A pass from the image of a phase ends in the image of what the pass ends in. -/
theorem agree_pass (course : Course ω Rat) (phase : Phase Rat) :
    (course.pass phase).Agree (Error.Alike sym) (Session.Image sym True True) (fun p p' => p' = p.image sym)
      ((course.image sym).pass (phase.image sym)) := by
  have scanned : ∀ leg window, (scan window >>= course.treat leg window).Agree (Error.Alike sym)
      (Session.Image sym True True) (fun p p' => p' = p.image sym)
      (scan (window.image sym) >>= (course.image sym).treat (leg.image sym) (window.image sym)) := by
    intro leg window
    refine Effect.agree_bind (agree_scan window) ?_
    rintro group _ rfl
    exact agree_treat course leg window group
  cases phase with
  | scanning leg window =>
    rw [Phase.image, pass_scanning, pass_scanning]
    exact scanned leg window
  | stepping t y yp =>
    rw [Phase.image, pass_stepping, pass_stepping]
    refine Effect.agree_bind (agree_nextLeg course t y yp) ?_
    rintro leg _ rfl
    exact scanned leg (.ofStep leg.step)

theorem agree_passes (course : Course ω Rat) (left : Nat) (phase : Phase Rat) :
    (course.passes left phase).Agree (Error.Alike sym) (Session.Image sym True True) (fun p p' => p' = sym.row p)
      ((course.image sym).passes left (phase.image sym)) := by
  induction left generalizing phase with
  | zero => exact Effect.agree_throw (Error.alike_refl sym _)
  | succ left ih =>
    unfold passes
    refine Effect.agree_bind (agree_pass course phase) ?_
    rintro progress _ rfl
    cases progress with
    | finished t y => exact Effect.agree_pure rfl
    | onward phase => exact ih phase

/-- A run of the image of a course is the image of the run. -/
theorem agree_run (course : Course ω Rat) {t0 : Rat} (different : t0 ≠ course.target) (y0 : State Rat) :
    (course.run t0 y0).Agree (Error.Alike sym) (Session.Image sym False False) (fun p p' => p' = sym.row p)
      ((course.image sym).run (sym.time t0) y0) := by
  unfold run
  refine Effect.agree_bind (Session.agree_onTally (Rate.agree_call t0 y0)) ?_
  rintro yp _ rfl
  have sized : (sym.rate yp).size = yp.size := by
    rw [Tensor.size, Tensor.size, Symmetry.rate, Tensor.entries_smul, List.length_map]
  refine Effect.agree_bind (Effect.agree_lift (course.matched_requireSize _ rfl sized)) fun _ _ _ => ?_
  -- The two engines may have made other runs before: only now do the monitors look the right way, and
  -- only after the next step have the observers forgotten what they heard.
  refine Effect.leads_bind (Session.leads_init different y0) (fun _ _ _ => ?_)
    fun _ _ image => { image with monitor := image.monitor.mono fun _ => trivial }
  refine Effect.leads_bind (Session.leads_start different y0) (fun _ _ _ => ?_)
    fun _ _ image => { image with observers := image.observers.mono fun _ _ _ known => known.mono fun _ => trivial }
  exact agree_passes course (course.budget + 1) (.stepping t0 y0 (some yp))

end Course

end Trajectory
