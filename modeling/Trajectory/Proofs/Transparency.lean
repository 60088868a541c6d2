import Mathlib.Tactic
import Trajectory.Proofs.Hearing
import Trajectory.Proofs.Ledger
import Trajectory.Proofs.Purity
import Trajectory.Proofs.Timer

/-!
Events after which a run carries on do not change it.

`Stage.Shadowed` relates a run with handlers to the run without them that starts alike: at every
stage the second run is at the start of the step that the first one is working on. It makes a move
of its own when the first run takes a step and when it hands over the last piece of one
(`shadowed_move`). So if the first run returns, both end together.
-/

namespace Trajectory

open Session

variable {ω : Type}

/-- Every answer of a handler has let the run carry on. -/
def Journal.CarriedOn (j : Journal Rat) : Prop := ∀ index action, .answered index action ∈ j → action = .carryOn

/-- The ends of the steps among the ends of the accepted pieces, with the states there. -/
def Journal.steps (j : Journal Rat) : List (Rat × State Rat) :=
  (j.pieces.filter fun (piece, _) => piece.stop == piece.step.tNext).map fun (piece, _) => (piece.stop, piece.yStop)

theorem Journal.steps_append (j j' : Journal Rat) : steps (j ++ j') = j.steps ++ steps j' := by
  rw [steps, pieces_append, List.filter_append, List.map_append, steps, steps]

theorem Journal.steps_accepted (piece : Window Rat) (last : Bool) : steps [.accepted piece last] =
    if piece.stop == piece.step.tNext then [(piece.stop, piece.yStop)] else [] := by
  cases closes : piece.stop == piece.step.tNext with
  | true => simp [steps, pieces, Entry.piece?, closes]
  | false => simp [steps, pieces, Entry.piece?, closes]

theorem Journal.steps_sublist (j : Journal Rat) : j.steps.Sublist j.boundaries := List.filter_sublist.map _

theorem Journal.steps_fst (j : Journal Rat) :
    j.steps.map Prod.fst = (j.ends.filter fun (t, tNext) => t == tNext).map Prod.fst := by
  rw [steps, ends, List.filter_map, List.map_map, List.map_map]
  rfl

/-- A piece ends with its step or before it. -/
theorem Journal.length_pieces (j : Journal Rat) : j.pieces.length = j.steps.length + (inner j.ends).length := by
  have split := List.length_eq_length_filter_add (l := j.ends) fun (t, tNext) => t == tNext
  have steps := congrArg List.length j.steps_fst
  rw [List.length_map, List.length_map] at steps
  rw [ends, List.length_map, ← ends, ← steps] at split
  exact split

/-- A session of a run with handlers, and one of the run without them. `passed` are the ends of
steps that only the first run has passed. -/
structure Session.Mirrored (related : Observer ω Rat → Observer ω Rat → Prop) (passed : List (Rat × State Rat))
    (s s₀ : Session ω Rat) : Prop where
  tally : s.tally.Like s₀.tally
  unwatched : s₀.monitor.channels = []
  observers : List.Forall₂ related s.observers s₀.observers
  steps : s.journal.steps = s₀.journal.boundaries ++ passed
  counted : s₀.accepted = s₀.journal.pieces.length

namespace Course

/-- What follows a pass, with so many passes left. -/
def follow [Spacing Rat] (course : Course ω Rat) (left : Nat) :
    Progress Rat → Effect (Session ω Rat) Rat (Rat × State Rat)
  | .finished t y => pure (t, y)
  | .onward phase => course.passes left phase

theorem passes_succ [Spacing Rat] (course : Course ω Rat) (left : Nat) (phase : Phase Rat) :
    course.passes (left + 1) phase = course.pass phase >>= course.follow left :=
  congrArg (course.pass phase >>= ·) (funext fun progress => by cases progress <;> rfl)

/-- Where a run is behind a step. -/
def behind (leg : Leg Rat) (y : State Rat) : Progress Rat :=
  if leg.last then .finished leg.step.tNext y else .onward (.stepping leg.step.tNext y (some leg.step.ypNext))

variable [Spacing Rat] {course : Course ω Rat} {s s₀ : Session ω Rat}

/-- Nothing is found where nothing is watched. -/
theorem scan_unwatched (unwatched : s₀.monitor.channels = []) (window : Window Rat) :
    (Course.scan window).runFrom s₀ = (.ok [], s₀) := by
  rw [Course.scan, Effect.runFrom_bind, Effect.runFrom_get]
  dsimp only
  rw [unwatched, List.isEmpty_nil, if_pos rfl, Effect.runFrom_pure]

omit [Spacing Rat] in
theorem commit_unwatched (unwatched : s₀.monitor.channels = []) (t : Rat) (y : State Rat) :
    (onMonitor (Monitor.commit t y)).runFrom s₀ = (.ok (), s₀) := by
  obtain ⟨tally, ⟨channels, forward, status⟩, observers, accepted, entries⟩ := s₀
  cases unwatched
  rfl

omit [Spacing Rat] in
theorem init_unwatched (unwatched : s₀.monitor.channels = []) (t target : Rat) (y : State Rat) :
    ∃ m, m.channels = [] ∧ (onMonitor (Monitor.init t y target)).runFrom s₀ = (.ok (), { s₀ with monitor := m }) := by
  obtain ⟨tally, ⟨channels, forward, status⟩, observers, accepted, entries⟩ := s₀
  cases unwatched
  exact ⟨⟨[], decide (t ≤ target), .noEvent⟩, rfl, rfl⟩

end Course

section

variable {related : Observer ω Rat → Observer ω Rat → Prop} {passed : List (Rat × State Rat)} {β : Type}
  {s s' s₀ : Session ω Rat} {course : Course ω Rat}

/-- The run without handlers accepts no more pieces. -/
theorem Session.Mirrored.accepted_le (mirrored : s.Mirrored related passed s₀) :
    s₀.accepted + passed.length ≤ s.journal.pieces.length := by
  have steps := congrArg List.length mirrored.steps
  have fewer := s.journal.steps_sublist.length_le
  rw [List.length_append, Journal.boundaries, List.length_map] at steps
  rw [Journal.boundaries, List.length_map] at fewer
  rw [mirrored.counted]
  omega

/-- What does not depend on the state of the caller has the same outcome in both runs. -/
theorem Session.Mirrored.onTally {x : Effect (Tally ω) Rat β} {b : β} (mirrored : s.Mirrored related passed s₀)
    (blind : x.Blind) (ran : (Session.onTally x).runFrom s = (.ok b, s')) :
    ∃ s₀', (Session.onTally x).runFrom s₀ = (.ok b, s₀') ∧ s'.Mirrored related passed s₀' ∧
      s₀'.accepted = s₀.accepted := by
  obtain ⟨tally, called, rfl⟩ := onTally_ok.mp ran
  obtain ⟨tally₀, ran₀, like⟩ := blind.runFrom_ok mirrored.tally called
  exact ⟨{ s₀ with tally := tally₀ }, onTally_ok.mpr ⟨tally₀, ran₀, rfl⟩,
    ⟨like, mirrored.unwatched, mirrored.observers, mirrored.steps, mirrored.counted⟩, rfl⟩

/-- What is done about the handlers of the first run is of no concern to the other one. -/
theorem Session.Mirrored.onMonitor {x : Effect (Monitor ω Rat × ω) Rat β} {b : β}
    (mirrored : s.Mirrored related passed s₀) (ran : (Session.onMonitor x).runFrom s = (.ok b, s')) :
    s'.Mirrored related passed s₀ := by
  obtain ⟨_, _, _, rfl⟩ := onMonitor_ok.mp ran
  exact ⟨mirrored.tally, mirrored.unwatched, mirrored.observers, mirrored.steps, mirrored.counted⟩

theorem Session.Mirrored.outside {x : Effect ω Rat β} {b : β} (mirrored : s.Mirrored related passed s₀)
    (ran : (Session.outside x).runFrom s = (.ok b, s')) : s'.Mirrored related passed s₀ := by
  obtain ⟨_, _, rfl⟩ := outside_ok.mp ran
  exact ⟨mirrored.tally, mirrored.unwatched, mirrored.observers, mirrored.steps, mirrored.counted⟩

/-- The run without handlers takes the same step. -/
theorem Session.Mirrored.nextLeg (mirrored : s.Mirrored related passed s₀) (settled : course.equation.toRate.Pure)
    {t : Rat} {y : State Rat} {yp : Option (State Rat)} {leg : Leg Rat}
    (taken : (course.nextLeg t y yp).runFrom s = (.ok leg, s')) :
    ∃ s₀', (course.nextLeg t y yp).runFrom s₀ = (.ok leg, s₀') ∧ s'.Mirrored related passed s₀' ∧
      s₀'.accepted = s₀.accepted := by
  rw [Course.nextLeg] at taken ⊢
  obtain ⟨step, s₁, advanced, same⟩ := Effect.runFrom_bind_ok.mp taken
  rw [Effect.runFrom_pure] at same
  cases same
  obtain ⟨s₀', advanced₀, mirrored', accepted⟩ := mirrored.onTally (Stepper.blind_advance settled _ _ _ _ _) advanced
  exact ⟨s₀', Effect.runFrom_bind_ok.mpr ⟨step, s₀', advanced₀, rfl⟩, mirrored', accepted⟩

variable [Spacing Rat]

/-- Scanning a window is of no concern to the run without handlers. -/
theorem Session.Mirrored.scan (mirrored : s.Mirrored related passed s₀) {window : Window Rat}
    {group : List (Occurrence Rat)} (scanned : (Course.scan window).runFrom s = (.ok group, s')) :
    s'.Mirrored related passed s₀ := by
  unfold Course.scan at scanned
  rw [Effect.runFrom_bind, Effect.runFrom_get] at scanned
  by_cases unwatched : s.monitor.channels.isEmpty = true
  · simp only [unwatched, if_true, Effect.runFrom_pure] at scanned
    cases scanned
    exact mirrored
  · simp only [unwatched] at scanned
    exact mirrored.onMonitor scanned

omit [Spacing Rat] in
/-- An entry that accepts no piece is of no concern either. -/
theorem Session.Mirrored.noted (mirrored : s.Mirrored related passed s₀) (e : Entry Rat) (piece : e.piece? = none) :
    (s.noted e).Mirrored related passed s₀ := by
  refine ⟨mirrored.tally, mirrored.unwatched, mirrored.observers, ?_, mirrored.counted⟩
  have silent : Journal.steps [e] = [] := by simp [Journal.steps, Journal.pieces, piece]
  rw [journal_noted, Journal.steps_append, silent, List.append_nil]
  exact mirrored.steps

end

/-- While a run with handlers is inside a step, the one without them is about to accept the step as
a whole; `final` is how the latter will end. -/
def Leg.Shadowed [Spacing Rat] (leg : Leg Rat) (course : Course ω Rat)
    (final : Except (Error Rat) (Rat × State Rat) × Session ω Rat) (a : Rat) (passed : List (Rat × State Rat))
    (s : Session ω Rat) : Prop :=
  ∃ s₀, final = (course.settle leg (.ofStep leg.step) >>= course.follow (course.budget - s₀.accepted)).runFrom s₀ ∧
    s.Mirrored (Observer.Trails course.forward leg.step a) passed s₀

/-- The window and the piece of a cut are parts of its step. -/
def Cut.Parted [Spacing Rat] (cut : Cut) (forward : Bool) : Prop :=
  cut.window.Part forward cut.leg.step ∧ cut.piece.Part forward cut.leg.step

/-- Whether the piece of a cut ends with its step. -/
def Cut.closes (cut : Cut) : Bool := cut.piece.stop == cut.leg.step.tNext

/-- How a run without handlers stands at a stage of the run with them; `final` is how it will
end. -/
def Stage.Shadowed [Spacing Rat] (course : Course ω Rat)
    (final : Except (Error Rat) (Rat × State Rat) × Session ω Rat) (s : Session ω Rat) : Stage ω → Prop
  | opening t y => ∃ s₀, final = (course.run t y).runFrom s₀ ∧ s₀.accepted = 0 ∧
      s.Mirrored (fun o o₀ => o₀ = o ∧ o.Obliging course.forward t) [] s₀
  | stepping t y yp => ∃ s₀, final = (course.passes (course.budget + 1 - s₀.accepted) (.stepping t y yp)).runFrom s₀ ∧
      s.Mirrored (Observer.Even course.forward t) [] s₀
  | scanning leg window => window.Part course.forward leg.step ∧ leg.Shadowed course final window.start [] s
  | located leg window _ _ => window.Part course.forward leg.step ∧ leg.Shadowed course final window.start [] s
  | asking cut _ verdict => verdict = .carryOn ∧ cut.Parted course.forward ∧
      cut.leg.Shadowed course final cut.window.start [] s
  | awaiting cut _ _ _ verdict => verdict = .carryOn ∧ cut.Parted course.forward ∧
      cut.leg.Shadowed course final cut.window.start [] s
  | decided cut last verdict => verdict = .carryOn ∧ last = cut.atEnd ∧ cut.Parted course.forward ∧
      cut.leg.Shadowed course final cut.window.start [] s
  | accepted cut last verdict => verdict = .carryOn ∧ last = cut.atEnd ∧ cut.Parted course.forward ∧
      cut.leg.Shadowed course final cut.window.start
        (if cut.closes then [(cut.piece.stop, cut.piece.yStop)] else []) s
  | told cut verdict => verdict = .carryOn ∧ cut.Parted course.forward ∧
      if cut.closes then
        ∃ s₀, final = (course.follow (course.budget + 1 - s₀.accepted)
            (Course.behind cut.leg cut.leg.step.yNext)).runFrom s₀ ∧
          s.Mirrored (Observer.Even course.forward cut.leg.step.tNext) [] s₀
      else cut.leg.Shadowed course final cut.piece.stop [] s
  | restarting _ _ _ => False
  | ended t y => ∃ s₀ a, final = (.ok (t, y), s₀) ∧ s.Mirrored (Observer.Even course.forward a) [] s₀

section

variable [Spacing Rat] {course : Course ω Rat} {s s' s₀ : Session ω Rat}
  {final : Except (Error Rat) (Rat × State Rat) × Session ω Rat}

/-- A session that has accepted a whole step and handed it to its observers. -/
def Session.settled (s₀ : Session ω Rat) (leg : Leg Rat) (observers : List (Observer ω Rat)) (w : ω) : Session ω Rat :=
  { ({ s₀ with accepted := s₀.accepted + 1 }.noted (.accepted (.ofStep leg.step) leg.last)) with
      observers := observers
      tally := { s₀.tally with world := w } }

omit [Spacing Rat] in
theorem Session.journal_settled (s₀ : Session ω Rat) (leg : Leg Rat) (observers : List (Observer ω Rat)) (w : ω) :
    (s₀.settled leg observers w).journal = s₀.journal ++ [.accepted (.ofStep leg.step) leg.last] :=
  journal_counted s₀ _ _

/-- A run without handlers accepts a step as a whole if its observers do. -/
theorem settle_unwatched {leg : Leg Rat} {observers : List (Observer ω Rat)} {w : ω}
    (affordable : s₀.accepted < course.budget) (unwatched : s₀.monitor.channels = [])
    (heard : (Effect.forEach (Observer.accept (.ofStep leg.step) leg.last)).runFrom (s₀.observers, s₀.tally.world) =
      (.ok (), observers, w)) :
    (course.settle leg (.ofStep leg.step)).runFrom s₀ =
      (.ok (Course.behind leg leg.step.yNext), s₀.settled leg observers w) := by
  have dispatched : (Session.dispatch course (.ofStep leg.step) leg.last).runFrom s₀ =
      (.ok (), s₀.settled leg observers w) := by
    rw [Session.dispatch, Effect.runFrom_bind, Effect.runFrom_get]
    dsimp only
    rw [if_neg (Nat.not_le.mpr affordable), Effect.runFrom_bind, Effect.runFrom_modify]
    dsimp only
    rw [Effect.runFrom_bind, runFrom_note]
    exact onObservers_ok.mpr ⟨observers, w, heard, rfl⟩
  have unwatched' : (s₀.settled leg observers w).monitor.channels = [] := unwatched
  rw [Course.settle, Effect.runFrom_bind, dispatched]
  dsimp only
  rw [Effect.runFrom_bind, Course.commit_unwatched unwatched']
  dsimp only
  rw [Course.behind]
  cases leg.last <;> rfl

/-- What comes before the first step is the same in both runs. -/
theorem shadowed_open {watches : List (Handler ω Rat × Settings Rat)} {t : Rat} {y yp : State Rat}
    {s₁ s₂ : Session ω Rat} (directed : course.Directed watches t) (settled : course.equation.toRate.Pure)
    (derivative : (onTally (course.equation.call t y)).runFrom s = (.ok yp, s₁))
    (fits : course.equation.requireSize .derivative yp = .ok ())
    (watched : (onMonitor (Monitor.init t y course.target)).runFrom s₁ = (.ok (), s₂))
    (observed : (onObservers (Effect.forEach (Observer.start t y course.target))).runFrom s₂ = (.ok (), s'))
    (before : (Stage.opening t y).Shadowed course final s) :
    (Stage.stepping t y (some yp)).Shadowed course final s' := by
  obtain ⟨s₀, rfl, fresh, mirrored⟩ := before
  obtain ⟨s₁₀, derivative₀, mirrored₁, accepted⟩ := mirrored.onTally (settled.blind_call t y) derivative
  obtain ⟨m, unwatched, watched₀⟩ := Course.init_unwatched mirrored₁.unwatched t course.target y
  obtain ⟨_, _, _, rfl⟩ := onMonitor_ok.mp watched
  obtain ⟨os, w, started, rfl⟩ := onObservers_ok.mp observed
  have each : List.Forall₂ (fun o' o₀ => ∀ v, ∃ o₀' v',
      (Observer.start t y course.target).runFrom (o₀, v) = (.ok (), o₀', v') ∧ o'.Even course.forward t o₀')
      os s₁₀.observers := by
    refine forall₂_meet (Effect.forEach_ok started) mirrored₁.observers ?_
    rintro o o' _ ⟨_, _, ran⟩ ⟨rfl, obliging⟩
    rw [← directed.forward_eq] at obliging ⊢
    exact Observer.even_start obliging ran
  obtain ⟨os₀, w₀, started₀, even⟩ := Effect.forEach_of_each each s₁₀.tally.world
  let s₀' : Session ω Rat :=
    { s₁₀ with monitor := m, observers := os₀, tally := { s₁₀.tally with world := w₀ } }
  have observed₀ : (onObservers (Effect.forEach (Observer.start t y course.target))).runFrom
      { s₁₀ with monitor := m } = (.ok (), s₀') := onObservers_ok.mpr ⟨os₀, w₀, started₀, rfl⟩
  have none_accepted : s₀'.accepted = 0 := accepted.trans fresh
  refine ⟨s₀', ?_, mirrored₁.tally, unwatched, even, mirrored₁.steps, mirrored₁.counted⟩
  rw [Course.run, Effect.runFrom_bind, derivative₀]
  dsimp only
  rw [Effect.runFrom_bind, Effect.runFrom_lift, fits]
  dsimp only
  rw [Effect.runFrom_bind, watched₀]
  dsimp only
  rw [Effect.runFrom_bind, observed₀]
  dsimp only
  rw [none_accepted]
  rfl

/-- Both runs take the same step. -/
theorem shadowed_step {t : Rat} {y : State Rat} {yp : Option (State Rat)} {leg : Leg Rat}
    (settled : course.equation.toRate.Pure) (affordable : s.journal.pieces.length ≤ course.budget)
    (taken : (course.nextLeg t y yp).runFrom s = (.ok leg, s'))
    (before : (Stage.stepping t y yp).Shadowed course final s) : leg.Shadowed course final t [] s' := by
  obtain ⟨s₀, rfl, mirrored⟩ := before
  obtain ⟨s₀', taken₀, mirrored', accepted⟩ := mirrored.nextLeg settled taken
  have fewer := mirrored.accepted_le
  rw [List.length_nil] at fewer
  have left : course.budget + 1 - s₀.accepted = course.budget - s₀.accepted + 1 := by omega
  refine ⟨s₀', ?_, mirrored'.tally, mirrored'.unwatched, ?_, mirrored'.steps, mirrored'.counted⟩
  · rw [left, accepted, Course.passes_succ, Course.pass_stepping, Effect.runFrom_bind, Effect.runFrom_bind, taken₀]
    dsimp only
    rw [Effect.runFrom_bind, Course.scan_unwatched mirrored'.unwatched]
    dsimp only
    rw [Effect.runFrom_bind]
    rfl
  · exact mirrored'.observers.imp fun _ _ even => even.trails leg.step

/-- A piece inside a step is heard of in the run with handlers alone. -/
theorem shadowed_tell_inner {cut : Cut} {last : Bool} (gaps : ∀ x : Rat, 0 ≤ Spacing.ulp x)
    (inner : cut.closes = false) (start : cut.piece.start = cut.window.start)
    (told : (onObservers (Effect.forEach (Observer.accept cut.piece last))).runFrom s = (.ok (), s'))
    (before : (Stage.accepted cut last .carryOn).Shadowed course final s) :
    (Stage.told cut .carryOn).Shadowed course final s' := by
  obtain ⟨_, same, parted, s₀, ends, mirrored⟩ := before
  rw [Cut.atEnd, ← Cut.closes, inner, Bool.and_false] at same
  obtain ⟨os, w, heard, rfl⟩ := onObservers_ok.mp told
  have trails : List.Forall₂ (Observer.Trails course.forward cut.leg.step cut.piece.stop) os s₀.observers := by
    refine forall₂_meet (Effect.forEach_ok heard) mirrored.observers ?_
    rintro o o' o₀ ⟨_, _, ran⟩ trails
    exact trails.accept gaps parted.2 start (same ▸ ran)
  have steps := mirrored.steps
  rw [inner, if_neg Bool.false_ne_true] at steps
  refine ⟨rfl, parted, ?_⟩
  rw [inner, if_neg Bool.false_ne_true]
  exact ⟨s₀, ends, mirrored.tally, mirrored.unwatched, trails, steps, mirrored.counted⟩

/-- With the last piece of a step the run without handlers accepts the step. -/
theorem shadowed_tell_closing {cut : Cut} {last : Bool} (gaps : ∀ x : Rat, 0 ≤ Spacing.ulp x)
    (closes : cut.closes = true) (start : cut.piece.start = cut.window.start)
    (affordable : s.journal.pieces.length ≤ course.budget)
    (told : (onObservers (Effect.forEach (Observer.accept cut.piece last))).runFrom s = (.ok (), s'))
    (before : (Stage.accepted cut last .carryOn).Shadowed course final s) :
    (Stage.told cut .carryOn).Shadowed course final s' := by
  obtain ⟨_, same, parted, s₀, rfl, mirrored⟩ := before
  rw [Cut.atEnd, ← Cut.closes, closes, Bool.and_true] at same
  rw [closes, if_pos rfl] at mirrored
  obtain ⟨os, w, heard, rfl⟩ := onObservers_ok.mp told
  have stop : cut.piece.stop = cut.leg.step.tNext := beq_iff_eq.mp closes
  have ahead := parted.2.ahead_step
  have each : List.Forall₂ (fun o' o₀ => ∀ v, ∃ o₀' v',
      (Observer.accept (.ofStep cut.leg.step) cut.leg.last).runFrom (o₀, v) = (.ok (), o₀', v') ∧
        o'.Even course.forward cut.leg.step.tNext o₀') os s₀.observers := by
    refine forall₂_meet (Effect.forEach_ok heard) mirrored.observers ?_
    rintro o o' o₀ ⟨_, _, ran⟩ trails
    exact trails.settle gaps parted.2 start stop ahead (same ▸ ran)
  obtain ⟨os₀, w₀, heard₀, even⟩ := Effect.forEach_of_each each s₀.tally.world
  have fewer := mirrored.accepted_le
  rw [List.length_singleton] at fewer
  have room : s₀.accepted < course.budget := by omega
  have accepted := settle_unwatched room mirrored.unwatched heard₀
  refine ⟨rfl, parted, ?_⟩
  rw [closes, if_pos rfl]
  refine ⟨s₀.settled cut.leg os₀ w₀, ?_, mirrored.tally, mirrored.unwatched, even, ?_, ?_⟩
  · have left : course.budget + 1 - (s₀.settled cut.leg os₀ w₀).accepted = course.budget - s₀.accepted :=
      Nat.add_sub_add_right ..
    rw [Effect.runFrom_bind, accepted, left]
  · have steps := mirrored.steps
    rw [stop, parted.2.yStop_eq ahead stop] at steps
    rw [journal_settled, Journal.boundaries_append, List.append_nil]
    exact steps
  · rw [journal_settled, Journal.pieces_append, List.length_append, ← mirrored.counted]
    rfl

/-- What has not been answered so far has not been answered before. -/
theorem Move.carriedOn {p q : Stage ω} (move : Move course (p, s) (q, s')) (carried : s'.journal.CarriedOn) :
    s.journal.CarriedOn := by
  intro index action mem
  rcases move.journal with same | ⟨e, grown, _⟩
  · exact carried index action (same ▸ mem)
  · exact carried index action (grown ▸ List.mem_append_left _ mem)

/-- Every move after which the run with handlers carries on keeps the other run in its shadow. -/
theorem shadowed_move {watches : List (Handler ω Rat × Settings Rat)} {t0 : Rat} (directed : course.Directed watches t0)
    (gaps : ∀ x : Rat, 0 ≤ Spacing.ulp x) (settled : course.equation.toRate.Pure) {p q : Stage ω}
    (move : Move course (p, s) (q, s')) (route : p.OnRoute course watches t0 s.monitor) (balanced : p.Balanced course s)
    (carried : s'.journal.CarriedOn) (before : p.Shadowed course final s) : q.Shadowed course final s' := by
  have route' := onRoute_move directed move route
  have affordable : s.journal.pieces.length ≤ course.budget := balanced.counted ▸ balanced.affordable
  cases move with
  | «open» derivative fits watched observed =>
    obtain ⟨rfl, _⟩ := route
    exact shadowed_open directed settled derivative fits watched observed before
  | @step t y yp leg _ _ taken =>
    obtain ⟨covers, _⟩ := route'
    obtain ⟨_, start, _, _, _⟩ := Course.nextLeg_ok taken
    have whole := Window.part_ofStep (s := leg.step) gaps covers.ahead
    refine ⟨whole, ?_⟩
    rw [Window.ofStep, start]
    exact shadowed_step settled affordable taken before
  | @clear leg window _ _ scanned =>
    obtain ⟨part, s₀, ends, mirrored⟩ := before
    obtain ⟨covers, _⟩ := route
    refine ⟨rfl, ?_, ⟨part, part⟩, s₀, ends, mirrored.scan scanned⟩
    rw [Cut.atEnd, beq_iff_eq.mpr covers.stop, Bool.and_true]
  | locate scanned =>
    obtain ⟨part, s₀, ends, mirrored⟩ := before
    exact ⟨part, s₀, ends, (mirrored.scan scanned).noted _ rfl⟩
  | @cut leg window first rest _ piece truncated =>
    obtain ⟨part, shadow⟩ := before
    obtain ⟨fits, _⟩ := route'
    obtain ⟨_, _, stop, _, _⟩ := Window.truncate_ok truncated
    have ahead := fits.ahead
    have reached := fits.reached
    rw [fits.start, stop] at ahead
    rw [stop] at reached
    exact ⟨rfl, ⟨part, part.truncate gaps ahead reached truncated⟩, shadow⟩
  | ask watched =>
    obtain ⟨unwatched, parted, s₀, ends, mirrored⟩ := before
    exact ⟨unwatched, parted, s₀, ends, mirrored.noted _ rfl⟩
  | @answer cut o handler rest verdict action s₁ _ _ answered acknowledged =>
    obtain ⟨unwatched, parted, s₀, ends, mirrored⟩ := before
    have answer : action = .carryOn := by
      refine carried o.index action ?_
      rw [journal_answered answered acknowledged]
      exact List.mem_append_right _ List.mem_cons_self
    subst answer
    exact ⟨unwatched, parted, s₀, ends, ((mirrored.outside answered).noted _ rfl).onMonitor acknowledged⟩
  | decide =>
    obtain ⟨rfl, rest⟩ := before
    exact ⟨rfl, rfl, rest⟩
  | @accept cut last verdict _ _ =>
    obtain ⟨rfl, same, parted, s₀, ends, mirrored⟩ := before
    refine ⟨rfl, same, parted, s₀, ends, mirrored.tally, mirrored.unwatched, mirrored.observers, ?_, mirrored.counted⟩
    have steps := mirrored.steps
    rw [List.append_nil] at steps
    rw [journal_counted, Journal.steps_append, steps, Journal.steps_accepted, parted.2.step]
    rfl
  | @tell cut _ _ _ _ told =>
    obtain ⟨fits, _⟩ := route
    obtain rfl := before.1
    cases closes : cut.closes with
    | true => exact shadowed_tell_closing gaps closes fits.start affordable told before
    | false => exact shadowed_tell_inner gaps closes fits.start told before
  | stop => cases before.1
  | replace reset fits => cases before.1
  | restart => cases before.1
  | refresh committed => exact before.elim
  | @resume cut _ _ _ committed resumed =>
    obtain ⟨fits, _⟩ := route
    obtain ⟨_, parted, rest⟩ := before
    have covers := fits.covers
    have closing : cut.piece.stop = cut.window.stop → cut.closes = true := fun whole =>
      beq_iff_eq.mpr (whole.trans covers.stop)
    cases resumed with
    | ended whole last =>
      rw [closing whole, if_pos rfl, Course.behind, if_pos last] at rest
      obtain ⟨s₀, ends, mirrored⟩ := rest
      have stop := whole.trans covers.stop
      refine ⟨s₀, cut.leg.step.tNext, ?_, mirrored.onMonitor committed⟩
      rw [stop, parted.2.yStop_eq parted.2.ahead_step stop]
      exact ends
    | stepping whole more =>
      rw [closing whole, if_pos rfl, Course.behind, more, if_neg Bool.false_ne_true] at rest
      obtain ⟨s₀, ends, mirrored⟩ := rest
      have stop := whole.trans covers.stop
      rw [Stage.Shadowed, stop, parted.2.yStop_eq parted.2.ahead_step stop]
      exact ⟨s₀, ends, mirrored.onMonitor committed⟩
    | scanning inner narrowed =>
      have inside : cut.closes = false := beq_eq_false_iff_ne.mpr fun stop => inner (stop.trans covers.stop.symm)
      rw [inside, if_neg Bool.false_ne_true] at rest
      obtain ⟨s₀, ends, mirrored⟩ := rest
      obtain ⟨_, start, _, _, _⟩ := Window.restrict_ok narrowed
      have behind : NotAfter course.forward cut.window.start cut.piece.stop := fits.start ▸ fits.ahead.notAfter
      refine ⟨parted.1.rest gaps behind (fits.reached.precedes_of_ne inner) narrowed, s₀, ends, ?_⟩
      rw [start]
      exact mirrored.onMonitor committed

end

/-- At the end of a run the inner events are the ends of the pieces inside steps. -/
theorem Stage.Balanced.inner_eq {course : Course ω Rat} {s : Session ω Rat} {t : Rat} {y : State Rat}
    (balanced : (Stage.ended t y).Balanced course s) :
    Journal.inner s.journal.events = Journal.inner s.journal.ends :=
  balanced.matched.trans (List.append_nil _)

/-- At the end of a run the times at which pieces end are the ends of steps and the events. -/
theorem Stage.Balanced.mem_boundaries {course : Course ω Rat} {s : Session ω Rat} {t : Rat} {y : State Rat}
    (balanced : (Stage.ended t y).Balanced course s) (r : Rat) : r ∈ s.journal.boundaries.map Prod.fst ↔
      r ∈ s.journal.steps.map Prod.fst ∨ r ∈ s.journal.events.map Prod.fst := by
  constructor
  · intro mem
    rw [Journal.boundaries_fst] at mem
    obtain ⟨⟨r, tNext⟩, mark, rfl⟩ := List.mem_map.mp mem
    by_cases step : r = tNext
    · rw [Journal.steps_fst]
      exact Or.inl (List.mem_map_of_mem (List.mem_filter.mpr ⟨mark, beq_iff_eq.mpr step⟩))
    · have inner : (r, tNext) ∈ Journal.inner s.journal.ends := List.mem_filter.mpr ⟨mark, bne_iff_ne.mpr step⟩
      rw [← balanced.inner_eq] at inner
      exact Or.inr (List.mem_map_of_mem (List.mem_filter.mp inner).1)
  · rintro (step | event)
    · obtain ⟨mark, mem, rfl⟩ := List.mem_map.mp step
      exact List.mem_map_of_mem (s.journal.steps_sublist.subset mem)
    · obtain ⟨mark, mem, rfl⟩ := List.mem_map.mp event
      rw [Journal.boundaries_fst]
      have done : mark ∈ s.journal.ends ++ [] := balanced.reached mark mem
      rw [List.append_nil] at done
      exact List.mem_map_of_mem done

/-- If all answers of the handlers let a run carry on, the run without them returns the same after
the same number of evaluations. Its pieces end where those of the run with handlers do, but for the
events, which are ends of pieces of the latter alone unless they coincide with the end of a step;
samplers hold the same samples. The right-hand side must not depend on the state of the caller, and
the observers must be able to follow a run. -/
theorem Engine.integrate_transparent [Spacing Rat] (gaps : ∀ x : Rat, 0 ≤ Spacing.ulp x) {e e' : Engine ω Rat}
    (usable : e.Usable) {equation : Equation ω Rat} (settled : equation.toRate.Pure) {t0 target t : Rat}
    {y0 y : State Rat} {w w' : ω} (obliging : ∀ o ∈ e.observers, o.Obliging (decide (t0 < target)) t0)
    (ran : (Engine.integrate equation t0 y0 target).runFrom (e, w) = (.ok (t, y), e', w'))
    (carried : e'.journal.CarriedOn) :
    ∃ e₀ w₀, (Engine.integrate equation t0 y0 target).runFrom (e.clearHandlers, w) = (.ok (t, y), e₀, w₀) ∧
      e₀.evaluations = e'.evaluations ∧
      e₀.journal.boundaries.Sublist e'.journal.boundaries ∧
      (∀ r, r ∈ e'.journal.boundaries.map Prod.fst ↔
        r ∈ e₀.journal.boundaries.map Prod.fst ∨ r ∈ e'.journal.events.map Prod.fst) ∧
      e'.accepted = e₀.accepted + (Journal.inner e'.journal.events).length ∧
      ∀ (i : Nat) (s : Sampler Rat), e'.observers[i]? = some (.sampler s) ↔ e₀.observers[i]? = some (.sampler s) := by
  obtain ⟨course, u, prepared, path, journal, accepted, evaluations, observers⟩ := integrate_path ran
  obtain ⟨directed, same, _, _, _, direction⟩ := prepare_ok usable prepared
  let final := (course.run t0 y0).runFrom (Session.start w (Monitor.create []) e.observers)
  have all := path.preserve
    (P := fun p s => p.OnRoute course e.watches t0 s.monitor ∧ p.Balanced course s ∧
      (s.journal.CarriedOn → p.Shadowed course final s))
    ⟨⟨rfl, rfl⟩, ⟨rfl, Nat.zero_le _, rfl, fun _ mem => absurd mem List.not_mem_nil⟩, fun _ =>
      ⟨_, rfl, rfl, ⟨rfl, rfl⟩, rfl, List.forall₂_same.mpr fun o mem => ⟨rfl, direction ▸ obliging o mem⟩, rfl, rfl⟩⟩
    fun p s q s' ⟨route, balanced, shadowed⟩ move => by
      refine ⟨onRoute_move directed move route, balanced_move move route balanced, fun carried => ?_⟩
      exact shadowed_move directed gaps (same ▸ settled) move route balanced carried (shadowed (move.carriedOn carried))
  obtain ⟨_, balanced, shadowed⟩ := all
  obtain ⟨s₀, a, ends, mirrored⟩ := shadowed (journal ▸ carried)
  cases ran₀ : (Engine.integrate equation t0 y0 target).runFrom (e.clearHandlers, w) with
  | mk r₀ after =>
    obtain ⟨e₀, w₀⟩ := after
    have prepared' : e.clearHandlers.prepare equation t0 y0 target = .ok course := prepared
    rcases integrate_run ran₀ with
      ⟨⟨_, refused, _⟩, _⟩ | ⟨course₀, s₀', prepared₀, run₀, journal₀, accepted₀, evaluations₀, observers₀⟩
    · cases prepared'.symm.trans refused
    · obtain rfl : course = course₀ := Except.ok.inj (prepared'.symm.trans prepared₀)
      obtain ⟨rfl, rfl⟩ : r₀ = .ok (t, y) ∧ s₀' = s₀ := Prod.mk.inj (run₀.symm.trans ends)
      have steps := mirrored.steps
      rw [List.append_nil] at steps
      refine ⟨e₀, w₀, rfl, ?_⟩
      rw [journal, journal₀, accepted, accepted₀, evaluations, evaluations₀, observers, observers₀]
      refine ⟨mirrored.tally.1, steps ▸ u.journal.steps_sublist, fun r => ?_, ?_, fun i sampler => ?_⟩
      · rw [← steps]
        exact balanced.mem_boundaries r
      · rw [balanced.counted, mirrored.counted, balanced.inner_eq, Journal.length_pieces, steps, Journal.boundaries,
          List.length_map]
      · exact Observer.Even.samplers mirrored.observers i sampler

/-- Two timers that let a run carry on, one inside a step and one at the end of a step, and a
sampler. -/
def Engine.sampledTimers : Engine Unit Rat :=
  (Engine.timed (1 / 2) [(.timer (1 / 3) .carryOn (.ofList [0]), ⟨none, 1 / 100, 100, none⟩),
    (.timer (1 / 2) .carryOn (.ofList [0]), ⟨none, 1 / 100, 100, none⟩)]).addObserver
    (.sampler (.create [0, 1 / 4, 1 / 3, 3 / 4, 1]))

/-- The first of the two timers cuts a step in two, the second one does not, and the sampler holds
the same samples with the timers and without them. -/
theorem Engine.transparent_timers :
    letI := Spacing.gapless
    let run := (Engine.integrate .steady 0 (.ofList [0]) 1).runFrom (Engine.sampledTimers, ())
    run.1 = .ok (1, .ofList [1]) ∧ run.2.1.journal.events = [(1 / 3, 1 / 2), (1 / 2, 1 / 2)] ∧
      run.2.1.observers.map (fun o => o.table.toOption.map Table.states) =
        [some [.ofList [0], .ofList [1 / 4], .ofList [1 / 3], .ofList [3 / 4], .ofList [1]]] ∧
      ∃ e₀ w₀, (Engine.integrate .steady 0 (.ofList [0]) 1).runFrom (Engine.sampledTimers.clearHandlers, ()) =
          (.ok (1, .ofList [1]), e₀, w₀) ∧ run.2.1.accepted = e₀.accepted + 1 ∧
        ∀ s : Sampler Rat, run.2.1.observers[0]? = some (.sampler s) ↔ e₀.observers[0]? = some (.sampler s) := by
  intro run
  have usable : Engine.sampledTimers.Usable :=
    (usable_timed (by decide +kernel) (by decide +kernel)).addObserver _
  have settled : Equation.steady.toRate.Pure := ⟨fun _ _ _ _ => rfl, fun _ _ => rfl⟩
  have obliging : ∀ o ∈ Engine.sampledTimers.observers, o.Obliging (decide ((0 : Rat) < 1)) 0 := by
    intro o mem
    rw [List.mem_singleton.mp mem]
    change List.Pairwise (fun s t : Rat => s ≤ t) [0, 0, 1 / 4, 1 / 3, 3 / 4, 1]
    norm_num
  have returned : run.1 = .ok (1, .ofList [1]) := by decide +kernel
  have answers : (run.2.1.journal.filterMap fun | .answered _ action => some action | _ => none) =
      [.carryOn, .carryOn] := by decide +kernel
  have carried : run.2.1.journal.CarriedOn := by
    intro index action mem
    have answer : action ∈ [Action.carryOn, .carryOn] :=
      answers ▸ List.mem_filterMap.mpr ⟨.answered index action, mem, rfl⟩
    simpa using answer
  have events : run.2.1.journal.events = [(1 / 3, 1 / 2), (1 / 2, 1 / 2)] := by decide +kernel
  obtain ⟨e₀, w₀, plain, _, _, _, accepted, samplers⟩ :=
    @Engine.integrate_transparent _ Spacing.gapless (fun _ => le_refl _) _ _ usable _ settled _ _ _ _ _ _ _ obliging
      (Prod.ext returned rfl) carried
  refine ⟨returned, events, by decide +kernel, e₀, w₀, plain, ?_, samplers 0⟩
  have one : (Journal.inner [((1 : Rat) / 3, 1 / 2), (1 / 2, 1 / 2)]).length = 1 := by decide +kernel
  rw [events, one] at accepted
  exact accepted

end Trajectory
