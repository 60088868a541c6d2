import Mathlib.Tactic
import Trajectory.Proofs.Delivery
import Trajectory.Proofs.Strict
import Trajectory.Proofs.Timer
import Trajectory.Proofs.Twins

/-!
The derivative that a run remembers.

Between two passes a run may remember the derivative at the point where it stands. It is always the
value of the right-hand side there (`Phase.Informed`, `Course.Arrives.informed`): a derivative is only
carried over from the end of a whole step, and a step that is left before its end, or from another
state, leaves none. A run that forgets it before every step and evaluates it again therefore does the
same, but for the number of evaluations (`Engine.integrate_afresh`).

None of this depends on arithmetic. Of the comparison of times it takes that a time is not equal to two
times one of which is less than the other (`Scalar.Strict`).
-/

namespace Trajectory

open Effect

variable {ω α β : Type}

/-- A right-hand side that is a function of the time and the state: it neither reads nor changes the state of the
caller, and does not tell equal times apart. -/
structure Rate.Definite [Scalar α] (f : Rate ω α) : Prop where
  steady : ∀ t y, (f.eval t y).Steady
  times : ∀ s t y, (s == t) = true → f.eval s y = f.eval t y

/-- The value of a right-hand side at a time and a state. -/
def Rate.HasValue (f : Rate ω α) (t : α) (y yp : State α) : Prop := ∀ w, (f.eval t y).runFrom w = (.ok yp, w)

/-- A run that steps on from where a step ends knows the derivative there. -/
def Leg.Informs (f : Rate ω α) (leg : Leg α) (window : Window α) : Prop :=
  leg.last = false → window.stop = leg.step.tNext ∧ window.yStop = leg.step.yNext ∧
    f.HasValue leg.step.tNext leg.step.yNext leg.step.ypNext

/-- What a run remembers of the derivative between two passes is right. -/
def Phase.Informed (f : Rate ω α) : Phase α → Prop
  | .stepping _ _ none => True
  | .stepping t y (some yp) => f.HasValue t y yp
  | .scanning leg window => leg.Informs f window

/-- A phase without the derivative. -/
def Phase.forgetful : Phase α → Phase α
  | .stepping t y _ => .stepping t y none
  | .scanning leg window => .scanning leg window

/-- All reference points are at a time. -/
def Monitor.At (t : α) (m : Monitor ω α) : Prop := ∀ c ∈ m.channels, c.tRef = t

/-- A handover after which a run that goes on knows the derivative, and has moved the reference points. -/
def Handover.Informs (f : Rate ω α) (h : Handover ω α) : Prop :=
  ∀ s next s', h.rest.runFrom s = (.ok (.onward next), s') → next.Informed f ∧ s'.monitor.At next.time

theorem Rate.HasValue.of_runFrom {f : Rate ω α} {t : α} {y yp : State α} {w w' : ω} (steady : (f.eval t y).Steady)
    (returned : (f.eval t y).runFrom w = (.ok yp, w')) : f.HasValue t y yp := (steady.runFrom returned).2

namespace Monitor

theorem moveReference_at {c c' : Channel ω α} {t : α} {y : State α} {w w' : ω}
    (moved : (moveReference t y).runFrom (c, w) = (.ok (), c', w')) : c'.tRef = t := by
  simp only [moveReference, changeChannel, runFrom_bind_ok, runFrom_modify, runFrom_get, Prod.mk.injEq,
    Except.ok.injEq] at moved
  obtain ⟨_, _, ⟨_, rfl⟩, _, _, ⟨rfl, rfl⟩, value, ⟨c₁, w₁⟩, called, _, rfl, _⟩ := moved
  rw [runFrom_onSecond, Prod.mk.injEq, Prod.mk.injEq] at called
  obtain ⟨_, rfl, _⟩ := called
  rfl

theorem onChannels_at {x : Effect (Channel ω α × ω) α Unit} {t : α} {m m' : Monitor ω α} {w w' : ω}
    (each : ∀ c c' v v', x.runFrom (c, v) = (.ok (), c', v') → c'.tRef = t)
    (ran : (onChannels (forEach x)).runFrom (m, w) = (.ok (), m', w')) : m'.At t := by
  obtain ⟨⟨cs, v⟩, changed, same⟩ := runFrom_within_ok.mp ran
  cases same
  intro c mem
  obtain ⟨i, at_⟩ := List.getElem?_of_mem mem
  obtain ⟨c₀, _, u, u', did⟩ := forall₂_getElem? (forEach_ok changed) at_
  exact each c₀ c u u' did

variable [Scalar α]

theorem commit_at {t : α} {y : State α} {m m' : Monitor ω α} {w w' : ω}
    (committed : (commit t y).runFrom (m, w) = (.ok (), m', w')) : m'.At t := by
  apply onChannels_at _ committed
  intro c c' v v' did
  obtain ⟨_, ⟨c₁, v₁⟩, moved, armed⟩ := runFrom_bind_ok.mp did
  have there := moveReference_at moved
  rw [changeChannel, runFrom_modify] at armed
  cases armed
  split
  · exact there
  · exact there

theorem init_at {t target : α} {y : State α} {m m' : Monitor ω α} {w w' : ω}
    (watched : (init t y target).runFrom (m, w) = (.ok (), m', w')) : m'.At t := by
  simp only [init, change, runFrom_bind_ok, runFrom_modify, Prod.mk.injEq] at watched
  obtain ⟨_, _, ⟨_, rfl⟩, _, ⟨m₁, w₁⟩, opened, _, rfl, _⟩ := watched
  change m₁.At t
  refine onChannels_at (fun c c' v v' did => ?_) opened
  simp only [runFrom_bind_ok, runFrom_get] at did
  obtain ⟨_, _, _, _, _, _, _, _, _, moved⟩ := did
  exact moveReference_at moved

variable [Spacing α] {window : Window α}

/-- A root lies behind the reference point of its channel. -/
theorem candidates_ahead {forward : Bool} {base : Nat} {channels : List (Channel ω α)} {found : List (Candidate α)}
    {w w' : ω} (searched : (candidates forward window base channels).runFrom w = (.ok found, w'))
    (nonempty : found ≠ []) :
    ∃ c ∈ channels, isAfter forward window.stop c.tRef = true := by
  induction channels generalizing base found w with
  | nil =>
    cases searched
    exact absurd rfl nonempty
  | cons c rest ih =>
    simp only [candidates, runFrom_bind_ok] at searched
    obtain ⟨root, v, first, later, v', others, listed⟩ := searched
    by_cases ahead : isAfter forward window.stop c.tRef = true
    · exact ⟨c, List.mem_cons_self, ahead⟩
    · have rootless : root = none := by
        rw [Channel.firstRoot, Bool.eq_false_iff.mpr ahead] at first
        cases first
        rfl
      rw [rootless] at listed
      cases listed
      obtain ⟨c', mem, ahead'⟩ := ih others nonempty
      exact ⟨c', List.mem_cons_of_mem c mem, ahead'⟩

/-- An event is only located in a window that leads away from a reference point. -/
theorem scan_ahead {m m' : Monitor ω α} {first : Occurrence α} {rest : List (Occurrence α)} {w w' : ω}
    (scanned : (scan window).runFrom (m, w) = (.ok (first :: rest), m', w')) :
    ∃ c ∈ m.channels, isAfter m.forward window.stop c.tRef = true := by
  simp only [scan, change, runFrom_bind_ok, runFrom_modify, runFrom_get, Prod.mk.injEq, Except.ok.injEq] at scanned
  obtain ⟨_, _, ⟨_, rfl⟩, ⟨d, v⟩, _, ⟨⟨rfl, rfl⟩, rfl⟩, found, ⟨d', v'⟩, searched, _, _, _, grouped⟩ := scanned
  rw [runFrom_onSecond] at searched
  obtain ⟨ran, _⟩ := Prod.mk.injEq .. ▸ searched
  refine candidates_ahead (Prod.ext ran rfl) ?_
  rintro rfl
  cases grouped

end Monitor

section

variable [Scalar α] {f : Rate ω α}

theorem Session.commit_at {t : α} {y : State α} {s s' : Session ω α}
    (committed : (onMonitor (Monitor.commit t y)).runFrom s = (.ok (), s')) : s'.monitor.At t := by
  obtain ⟨⟨m, w⟩, moved, rfl⟩ := runFrom_within_ok.mp committed
  exact Monitor.commit_at moved

theorem Rate.Definite.call_ok (definite : f.Definite) {t : α} {y yp : State α} {u u' : Tally ω}
    (called : (f.call t y).runFrom u = (.ok yp, u')) : f.HasValue t y yp := by
  obtain ⟨_, _, _, evaluated⟩ := runFrom_bind_ok.mp called
  obtain ⟨_, evaluated, _⟩ := runFrom_within_ok.mp evaluated
  exact .of_runFrom (definite.steady t y) evaluated

/-- A step carries the derivative at its end. -/
theorem Rate.Definite.advance_ok (definite : f.Definite) {stepper : Stepper} {t h : α} {y : State α}
    {yp : Option (State α)} {u u' : Tally ω} {step : Step α}
    (taken : (stepper.advance f t y h yp).runFrom u = (.ok step, u')) :
    f.HasValue step.tNext step.yNext step.ypNext := by
  have ends : ∀ {size : α} {start : State α} {v : Tally ω},
      (stepper.proceed f t y size start).runFrom v = (.ok step, u') → f.HasValue step.tNext step.yNext step.ypNext := by
    intro size start v proceeded
    simp only [Stepper.proceed, runFrom_bind_ok] at proceeded
    obtain ⟨yNext, _, _, ypNext, _, called, same⟩ := proceeded
    cases same
    exact definite.call_ok called
  cases yp with
  | some start =>
    rw [Stepper.advance_known] at taken
    obtain ⟨_, _, _, proceeded⟩ := runFrom_bind_ok.mp taken
    exact ends proceeded
  | none =>
    rw [Stepper.advance_unknown] at taken
    obtain ⟨_, _, _, taken⟩ := runFrom_bind_ok.mp taken
    obtain ⟨_, _, _, proceeded⟩ := runFrom_bind_ok.mp taken
    exact ends proceeded

/-- The end of a step that does not lead to the target is the end of its window, with the derivative there. -/
theorem Course.nextLeg_informs {course : Course ω α} (definite : course.equation.toRate.Definite) {t : α} {y : State α}
    {yp : Option (State α)} {s s' : Session ω α} {leg : Leg α}
    (taken : (course.nextLeg t y yp).runFrom s = (.ok leg, s')) :
    leg.Informs course.equation.toRate (.ofStep leg.step) ∧ s'.monitor = s.monitor := by
  obtain ⟨step, _, advanced, same⟩ := runFrom_bind_ok.mp taken
  obtain ⟨_, step_taken, rfl⟩ := runFrom_within_ok.mp advanced
  cases same
  refine ⟨fun more => ?_, rfl⟩
  dsimp only at more
  rw [more, if_neg Bool.false_ne_true]
  exact ⟨rfl, rfl, definite.advance_ok step_taken⟩

variable [Scalar.Strict α]

/-- A window that leads away from its start stops elsewhere. -/
theorem apart_of_isAfter {forward : Bool} {s t : α} (ahead : isAfter forward t s = true) :
    (t == t) = true ∧ ∀ r, (r == t) = true → (r == s) = false := by
  cases forward with
  | true =>
    have less : s < t := of_decide_eq_true ahead
    refine ⟨(Scalar.Strict.self_of_lt less).2, fun r there => Bool.eq_false_iff.mpr fun here => ?_⟩
    rw [Scalar.Strict.apart_of_lt less here] at there
    cases there
  | false =>
    have less : t < s := of_decide_eq_true ahead
    exact ⟨(Scalar.Strict.self_of_lt less).1, fun r => Scalar.Strict.apart_of_lt less⟩

variable [Spacing α] {course : Course ω α}

omit [Scalar.Strict α] in
theorem Window.stateAt_end {w : Window α} {t : α} {y : State α} (apart : (t == w.start) = false)
    (ends : (t == w.stop) = true) (answered : w.stateAt t = .ok y) : y = w.yStop := by
  rw [stateAt, except_bind_ok] at answered
  obtain ⟨_, _, answered⟩ := answered
  rw [if_neg (Bool.eq_false_iff.mp apart), if_pos ends] at answered
  cases answered
  rfl

namespace Course

omit [Scalar.Strict α] [Spacing α] in
theorem restart_informs {t : α} {y : State α} {atEnd : Bool} {s s' : Session ω α} {next : Phase α}
    (ran : (restart t y atEnd).runFrom s = (.ok (.onward next), s')) :
    next.Informed f ∧ s'.monitor.At next.time := by
  obtain ⟨_, s₁, committed, left⟩ := runFrom_bind_ok.mp ran
  cases atEnd with
  | true => cases left
  | false =>
    cases left
    exact ⟨trivial, Session.commit_at committed⟩

omit [Scalar.Strict α] [Spacing α] in
theorem settling_informs {leg : Leg α} {window : Window α} (informs : leg.Informs f window) :
    (settling leg window : Handover ω α).Informs f := by
  intro s next s' ran
  obtain ⟨_, s₁, committed, left⟩ := runFrom_bind_ok.mp ran
  cases more : leg.last with
  | true =>
    rw [more] at left
    cases left
  | false =>
    rw [more] at left
    cases left
    obtain ⟨stop, yStop, value⟩ := informs more
    exact ⟨stop ▸ yStop ▸ value, Session.commit_at committed⟩

omit [Scalar.Strict α] in
/-- Behind an event a run knows the derivative only if the event lies at the end of a step, in the state there. -/
theorem resume_informs (definite : course.equation.toRate.Definite) {leg : Leg α} {window : Window α}
    (informs : leg.Informs course.equation.toRate window)
    (apart : (window.stop == window.stop) = true ∧ ∀ r, (r == window.stop) = true → (r == window.start) = false)
    {t : α} {y : State α} (answered : window.stateAt t = .ok y) {atEnd : Bool} {verdict : Verdict ω α}
    {s s' : Session ω α} {next : Phase α}
    (ran : (course.resume leg window t y atEnd verdict).runFrom s = (.ok (.onward next), s')) :
    next.Informed course.equation.toRate ∧ s'.monitor.At next.time := by
  cases verdict with
  | stop =>
    obtain ⟨_, _, _, left⟩ := runFrom_bind_ok.mp ran
    cases left
  | replace index handler =>
    simp only [resume, runFrom_bind_ok] at ran
    obtain ⟨_, _, _, _, _, _, _, _, _, left⟩ := ran
    exact restart_informs left
  | restart => exact restart_informs ran
  | carryOn =>
    obtain ⟨_, s₁, committed, left⟩ := runFrom_bind_ok.mp ran
    have there := Session.commit_at committed
    cases ends : t == window.stop with
    | true =>
      rw [ends, if_pos rfl] at left
      cases more : leg.last with
      | true =>
        rw [more] at left
        cases left
      | false =>
        rw [more] at left
        cases left
        obtain ⟨stop, yStop, value⟩ := informs more
        refine ⟨?_, there⟩
        -- The event may lie at a time that is only equal to the end of the step.
        rw [Window.stateAt_end (apart.2 t ends) ends answered, yStop]
        intro v
        rw [definite.times t _ _ (stop ▸ ends)]
        exact value v
    | false =>
      rw [ends, if_neg Bool.false_ne_true] at left
      obtain ⟨rest, _, narrowed, left⟩ := runFrom_bind_ok.mp left
      obtain ⟨inside, same⟩ := runFrom_lift_iff.mp narrowed
      obtain ⟨_, start, stop, _, yStop⟩ := Window.restrict_ok inside
      cases same
      cases left
      refine ⟨fun more => ?_, ?_⟩
      · rw [stop, Window.stateAt_end (apart.2 _ apart.1) apart.1 yStop]
        exact informs more
      · change Monitor.At rest.start _
        rw [start]
        exact there

theorem survey_informs (definite : course.equation.toRate.Definite) {leg : Leg α} {window : Window α}
    (informs : leg.Informs course.equation.toRate window) {s s' : Session ω α} (there : s.monitor.At window.start)
    {h : Handover ω α} (ran : (course.survey leg window).runFrom s = (.ok h, s')) :
    h.Informs course.equation.toRate := by
  obtain ⟨group, s₁, scanned, left⟩ := runFrom_bind_ok.mp ran
  cases group with
  | nil =>
    cases left
    exact settling_informs informs
  | cons first rest =>
    have ahead : ∃ forward, isAfter forward window.stop window.start = true := by
      rw [scan, runFrom_bind, runFrom_get] at scanned
      dsimp only at scanned
      split at scanned
      · cases scanned
      · obtain ⟨⟨m, w⟩, scanned, _⟩ := runFrom_within_ok.mp (scanned : (Session.onMonitor _).runFrom s = _)
        obtain ⟨c, mem, ahead⟩ := Monitor.scan_ahead scanned
        exact ⟨_, there c mem ▸ ahead⟩
    obtain ⟨forward, ahead⟩ := ahead
    obtain ⟨_, _, _, left⟩ := runFrom_bind_ok.mp left
    simp only [reacting, runFrom_bind_ok] at left
    obtain ⟨piece, _, cut, verdict, _, _, same⟩ := left
    cases same
    obtain ⟨_, _, _, _, answered⟩ := Window.restrict_ok (runFrom_lift_iff.mp cut).1
    exact fun s next s' => resume_informs definite informs (apart_of_isAfter ahead) answered

/-- Where a pass stands, the derivative that the run remembers is right, and the reference points are there. -/
theorem approach_informs (definite : course.equation.toRate.Definite) {phase : Phase α} {s s' : Session ω α}
    (informed : phase.Informed course.equation.toRate) (there : s.monitor.At phase.time) {h : Handover ω α}
    (ran : (course.approach phase).runFrom s = (.ok h, s')) : h.Informs course.equation.toRate := by
  cases phase with
  | scanning leg window => exact survey_informs definite informed there ran
  | stepping t y yp =>
    obtain ⟨leg, s₁, taken, ran⟩ := runFrom_bind_ok.mp ran
    obtain ⟨informs, same⟩ := nextLeg_informs definite taken
    have start : (Window.ofStep leg.step).start = t := nextLeg_start taken
    refine survey_informs definite informs ?_ ran
    rw [same, start]
    exact there

theorem pass_informs (definite : course.equation.toRate.Definite) {phase next : Phase α} {s s' : Session ω α}
    (informed : phase.Informed course.equation.toRate) (there : s.monitor.At phase.time)
    (ran : (course.pass phase).runFrom s = (.ok (.onward next), s')) :
    next.Informed course.equation.toRate ∧ s'.monitor.At next.time := by
  rw [pass_eq] at ran
  obtain ⟨h, s₁, approached, handed⟩ := runFrom_bind_ok.mp ran
  obtain ⟨_, s₂, _, rested⟩ := runFrom_bind_ok.mp handed
  exact approach_informs definite informed there approached s₂ next s' rested

end Course

end

section

variable [Scalar α] {f : Rate ω α}

/-- A step is the same if the derivative at its start is evaluated again. -/
theorem Stepper.alike_afresh (stepper : Stepper) {t : α} {y yp : State α}
    (value : f.HasValue t y yp) (h : α) :
    Alike (Tally.Twins Eq False) (fun _ => True) (stepper.advance f t y h (some yp)) (stepper.advance f t y h none) := by
  rw [advance_known, advance_unknown]
  refine alike_bind (alike_lift fun _ _ => trivial) fun size _ => ?_
  intro u v twins
  have evaluated : (f.call t y).runFrom v = (.ok yp, { v with evaluations := v.evaluations + 1 }) := by
    rw [Rate.call, runFrom_bind, Tally.count, runFrom_modify, Tally.outside]
    dsimp only
    rw [runFrom_within, value]
  rw [runFrom_bind, evaluated]
  exact stepper.alike_proceed f.respects_eq t y size yp u _ twins.count

variable [Spacing α] {course : Course ω α}

namespace Course

/-- Runs at most so many passes, each from a phase without the derivative. -/
def passesAfresh (course : Course ω α) : Nat → Phase α → Effect (Session ω α) α (α × State α)
  | 0, _ => throw .stalled
  | left + 1, phase => do
    match ← course.pass phase.forgetful with
    | .finished t y => return (t, y)
    | .onward phase => course.passesAfresh left phase

/-- A run that evaluates the derivative again before every step. -/
def runAfresh (course : Course ω α) (t0 : α) (y0 : State α) : Effect (Session ω α) α (α × State α) := do
  let yp ← course.begin t0 y0
  course.passesAfresh (course.budget + 1) (.stepping t0 y0 (some yp))

/-- The points between two passes at which a run arrives. -/
inductive Arrives (course : Course ω α) (t0 : α) (y0 : State α) (s₀ : Session ω α) : Phase α → Session ω α → Prop where
  | first {yp s} (begun : (course.begin t0 y0).runFrom s₀ = (.ok yp, s)) :
      Arrives course t0 y0 s₀ (.stepping t0 y0 (some yp)) s
  | next {phase phase' s s'} (earlier : Arrives course t0 y0 s₀ phase s)
      (passed : (course.pass phase).runFrom s = (.ok (.onward phase'), s')) : Arrives course t0 y0 s₀ phase' s'

omit [Spacing α] in
theorem begin_informs (definite : course.equation.toRate.Definite) {t0 : α} {y0 yp : State α} {s s' : Session ω α}
    (begun : (course.begin t0 y0).runFrom s = (.ok yp, s')) :
    course.equation.toRate.HasValue t0 y0 yp ∧ s'.monitor.At t0 := by
  simp only [Course.begin, runFrom_bind_ok] at begun
  obtain ⟨_, s₁, called, _, s₂, _, _, s₃, watched, _, s₄, told, same⟩ := begun
  cases same
  obtain ⟨_, evaluated, _⟩ := runFrom_within_ok.mp called
  obtain ⟨⟨m, w⟩, opened, rfl⟩ := runFrom_within_ok.mp watched
  obtain ⟨⟨os, w'⟩, _, rfl⟩ := runFrom_within_ok.mp told
  exact ⟨definite.call_ok evaluated, Monitor.init_at opened⟩

variable [Scalar.Strict α]

/-- Wherever a run arrives, the derivative that it remembers is right. -/
theorem Arrives.informed (definite : course.equation.toRate.Definite) {t0 : α} {y0 : State α} {s₀ s : Session ω α}
    {phase : Phase α} (arrives : course.Arrives t0 y0 s₀ phase s) :
    phase.Informed course.equation.toRate ∧ s.monitor.At phase.time := by
  induction arrives with
  | first begun => exact begin_informs definite begun
  | next _ passed ih => exact pass_informs definite ih.1 ih.2 passed

omit [Scalar.Strict α] in
/-- A pass that forgets a derivative which is right does the same. -/
theorem alike_pass_forgetful {phase : Phase α}
    (informed : phase.Informed course.equation.toRate) :
    Alike (Session.Twins Eq False Eq) (fun _ => True) (course.pass phase) (course.pass phase.forgetful) := by
  have approached : Alike (Session.Twins Eq False Eq) (Handover.Alike Eq False Eq) (course.approach phase)
      (course.approach phase.forgetful) := by
    cases phase with
    | scanning leg window => exact course.alike_survey leg window
    | stepping t y yp =>
      refine alike_bind (alike_nextLeg fun h => ?_) fun leg _ => course.alike_survey leg (.ofStep leg.step)
      cases yp with
      | none => exact course.stepper.alike_advance course.equation.toRate.respects_eq t y h none
      | some yp => exact course.stepper.alike_afresh informed h
  rw [pass_eq, pass_eq]
  refine alike_bind approached fun h alike => alike_handOver alike ?_
  rintro ⟨os, w⟩ ⟨_, _⟩ ⟨rfl, rfl⟩
  exact ⟨rfl, ⟨rfl, rfl⟩, fun _ _ => trivial⟩

/-- Passes that forget the derivative do the same as passes that remember it. -/
theorem twins_passesAfresh (definite : course.equation.toRate.Definite) (left : Nat) {phase : Phase α}
    {s s' : Session ω α} (informed : phase.Informed course.equation.toRate) (there : s.monitor.At phase.time)
    (twins : s.Twins Eq False Eq s') :
    ((course.passesAfresh left phase).runFrom s').1 = ((course.passes left phase).runFrom s).1 ∧
      ((course.passes left phase).runFrom s).2.Twins Eq False Eq ((course.passesAfresh left phase).runFrom s').2 := by
  induction left generalizing phase s s' with
  | zero => exact ⟨rfl, twins⟩
  | succ left ih =>
    rw [passes, passesAfresh, runFrom_bind, runFrom_bind]
    rcases passed : (course.pass phase).runFrom s with ⟨outcome, s₁⟩
    obtain ⟨s₁', again, twins', _⟩ := (alike_pass_forgetful informed).runFrom twins passed
    rw [again]
    rcases outcome with e | ⟨t, y⟩ | next
    · exact ⟨rfl, twins'⟩
    · exact ⟨rfl, twins'⟩
    · obtain ⟨informed', there'⟩ := pass_informs definite informed there passed
      exact ih informed' there' twins'

theorem twins_runAfresh (definite : course.equation.toRate.Definite) (t0 : α) (y0 : State α) (s : Session ω α) :
    ((course.runAfresh t0 y0).runFrom s).1 = ((course.run t0 y0).runFrom s).1 ∧
      ((course.run t0 y0).runFrom s).2.Twins Eq False Eq ((course.runAfresh t0 y0).runFrom s).2 := by
  have same : ∀ s : Session ω α, s.Twins Eq False Eq s := fun s =>
    ⟨⟨rfl, False.elim, rfl⟩, rfl, fun c _ => c.handler.respects_eq, rfl, rfl, rfl⟩
  rw [run_eq, runAfresh, runFrom_bind, runFrom_bind]
  rcases begun : (course.begin t0 y0).runFrom s with ⟨e | yp, s₁⟩
  · exact ⟨rfl, same s₁⟩
  · obtain ⟨value, there⟩ := begin_informs definite begun
    have informed : (Phase.stepping t0 y0 (some yp)).Informed course.equation.toRate := value
    exact twins_passesAfresh definite _ informed there (same s₁)

end Course

end

/-- Carries out a run that evaluates the derivative again before every step. -/
def Engine.integrateAfresh [Scalar α] [Spacing α] (equation : Equation ω α) (t0 : α) (y0 : State α) (target : α) :
    Effect (Engine ω α × ω) α (α × State α) :=
  conduct (fun course => course.runAfresh t0 y0) equation t0 y0 target

theorem Engine.told_evaluations {s s' : Session ω α} (twins : s.Twins Eq False Eq s')
    (e : Engine ω α) (outcome : Except (Error α) (α × State α)) :
    e.told outcome s' = { e.told outcome s with evaluations := s'.tally.evaluations } := by
  simp only [told, Session.journal, twins.accepted, twins.entries, ← twins.observers]

/-- A run that evaluates the derivative again before every step has the same outcome and the same account as one that
remembers it, and leaves the observers and the caller in the same state; only the evaluations differ. Wherever the run
arrives between two passes, a derivative that it remembers is the value of the right-hand side at the time and the
state there. -/
theorem Engine.integrate_afresh [Scalar α] [Spacing α] [Scalar.Strict α] {equation : Equation ω α}
    (definite : equation.toRate.Definite) (e : Engine ω α) (t0 : α) (y0 : State α) (target : α) (w : ω) :
    (let run := (integrate equation t0 y0 target).runFrom (e, w)
      ∃ evaluations, (integrateAfresh equation t0 y0 target).runFrom (e, w) =
        (run.1, { run.2.1 with evaluations := evaluations }, run.2.2)) ∧
      ∀ course t y yp s, e.prepare equation t0 y0 target = .ok course →
        course.Arrives t0 y0 (Session.start w (Monitor.create e.watches) e.observers) (.stepping t y (some yp)) s →
        ∀ v, (equation.eval t y).runFrom v = (.ok yp, v) := by
  constructor
  · rw [integrate_eq_conduct, integrateAfresh]
    cases prepared : e.prepare equation t0 y0 target with
    | error refused =>
      rw [conduct_refused prepared, conduct_refused prepared]
      exact ⟨e.evaluations, rfl⟩
    | ok course =>
      obtain rfl := equation_of_prepare prepared
      obtain ⟨same, twins⟩ :=
        Course.twins_runAfresh definite t0 y0 (Session.start w (Monitor.create e.watches) e.observers)
      rw [conduct_prepared prepared, conduct_prepared prepared, same, told_evaluations twins, ← twins.tally.world]
      exact ⟨_, rfl⟩
  · intro course t y yp s prepared arrives
    obtain rfl := equation_of_prepare prepared
    exact (arrives.informed definite).1

/-- One unknown that grows as fast as it is large. -/
def Equation.growth : Equation Unit Rat where
  eval _ y := pure y
  onCompile := pure ()
  compiled _ y := .ok y
  dimension := 1
  label := "growth"

theorem Equation.definite_growth : Equation.growth.Definite := by
  constructor
  · exact fun _ y => steady_pure y
  · exact fun _ _ _ _ => rfl

/-- A run with an event inside a step, one at its end, and a replacement of the state saves evaluations by remembering
derivatives. Nothing else changes. -/
theorem Engine.growth_afresh :
    letI := Spacing.gapless
    let usual : Settings Rat := ⟨none, 1 / 100, 100, none⟩
    let e := Engine.timed (1 / 2) [(.timer (1 / 4) .carryOn (.ofList [1]), usual),
      (.timer (1 / 2) .carryOn (.ofList [1]), usual), (.timer (3 / 4) .resetState (.ofList [1]), usual)]
    let run := (integrate .growth 0 (.ofList [1]) (3 / 2)).runFrom (e, ())
    run.1 = .ok (3 / 2, .ofList [15 / 8]) ∧ run.2.1.evaluations = 6 ∧
      (integrateAfresh .growth 0 (.ofList [1]) (3 / 2)).runFrom (e, ()) =
        (run.1, { run.2.1 with evaluations := 9 }, run.2.2) := by
  let := Spacing.gapless
  intro usual e run
  have evaluated : ((integrateAfresh .growth 0 (.ofList [1]) (3 / 2)).runFrom (e, ())).2.1.evaluations = 9 := by
    decide +kernel
  obtain ⟨⟨evaluations, same⟩, _⟩ := integrate_afresh Equation.definite_growth e 0 (.ofList [1]) (3 / 2) ()
  rw [same] at evaluated
  refine ⟨by decide +kernel, by decide +kernel, ?_⟩
  rw [same]
  exact congrArg (fun n => (run.1, { run.2.1 with evaluations := n }, run.2.2)) evaluated

end Trajectory
