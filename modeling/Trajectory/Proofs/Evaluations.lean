import Mathlib.Tactic
import Trajectory.Proofs.Engine
import Trajectory.Proofs.Passes
import Trajectory.Proofs.Purity
import Trajectory.Proofs.Timer

/-!
How often a run evaluates the right-hand side.

A step costs one evaluation for each stage of its scheme, and those in front of its last derivative
are made once for each pair of shapes if the stages are compiled (`Stepper.advance_evaluations`). A
run pays for one derivative more at its start, and for another one wherever it starts afresh. What
its journal says of the groups of events is the docket (`Journal.docket`): a group whose handlers all
let the run go on inside the step makes two pieces of one step, and a group that is answered with a
reset before the target makes the run start afresh. `Stage.Reckoned` is the account of a run between
two of its moves, with the evaluations that are due before the next step and the step that is under
way; `Engine.integrate_evaluations` is the account of a run that returns.
-/

namespace Trajectory

open Session

variable {ω β γ : Type}

/-! ## Evaluations of a step -/

/-- The number of stages of a step. -/
def Scheme.stages : Scheme → Nat
  | .euler => 1
  | .midpoint => 2
  | .rk4 => 4
  | .abstract => 0

/-- A computation that makes so many evaluations whenever it returns, and compiles nothing. -/
def Effect.Evaluates (n : Nat) (x : Effect (Tally ω) Rat β) : Prop :=
  ∀ u b u', x.runFrom u = (.ok b, u') → u'.evaluations = u.evaluations + n ∧ u'.compiled = u.compiled

section

open Effect

variable {f : Rate ω Rat} {t h : Rat} {y yp yNext : State Rat} {u u' : Tally ω} {m n : Nat}

theorem Effect.evaluates_pure (b : β) : (pure b : Effect (Tally ω) Rat β).Evaluates 0 := by
  intro u b' u' ran
  cases ran
  exact ⟨rfl, rfl⟩

theorem Effect.evaluates_lift (x : Except (Error Rat) β) : (liftM x : Effect (Tally ω) Rat β).Evaluates 0 := by
  intro u b u' ran
  obtain ⟨_, rfl⟩ := runFrom_lift_iff.mp ran
  exact ⟨rfl, rfl⟩

theorem Effect.evaluates_bind {x : Effect (Tally ω) Rat β} {f : β → Effect (Tally ω) Rat γ} (first : x.Evaluates m)
    (rest : ∀ b, (f b).Evaluates n) : (x >>= f).Evaluates (m + n) := by
  intro u c u'' ran
  obtain ⟨b, u', ranX, ranF⟩ := runFrom_bind_ok.mp ran
  obtain ⟨more, same⟩ := first u b u' ranX
  obtain ⟨more', same'⟩ := rest b u' c u'' ranF
  exact ⟨by rw [more', more, Nat.add_assoc], same'.trans same⟩

theorem Effect.evaluates_outside (x : Effect ω Rat β) : (Tally.outside x).Evaluates 0 := by
  intro u b u' ran
  obtain ⟨_, _, rfl⟩ := runFrom_within_ok.mp ran
  exact ⟨rfl, rfl⟩

theorem Effect.evaluates_count : (Tally.count : Effect (Tally ω) Rat Unit).Evaluates 1 := by
  intro u b u' ran
  cases ran
  exact ⟨rfl, rfl⟩

theorem Rate.evaluates_call (f : Rate ω Rat) (t : Rat) (y : State Rat) : (f.call t y).Evaluates 1 :=
  evaluates_bind evaluates_count fun _ => evaluates_outside _

theorem Rate.evaluates_compilingCall (f : Rate ω Rat) (t : Rat) (y : State Rat) : (f.compilingCall t y).Evaluates 1 :=
  evaluates_bind evaluates_count fun _ => evaluates_bind (evaluates_outside _) fun _ => evaluates_lift _

theorem Rate.evaluates_compiledCall (f : Rate ω Rat) (t : Rat) (y : State Rat) : (f.compiledCall t y).Evaluates 0 :=
  evaluates_lift _

/-- The increment of a scheme evaluates at every stage but the first. -/
theorem Scheme.evaluates_increment (scheme : Scheme) {f : Rat → State Rat → Effect (Tally ω) Rat (State Rat)}
    (each : ∀ t y, (f t y).Evaluates m) (t : Rat) (y : State Rat) (h : Rat) (yp : State Rat) :
    (scheme.increment f t y h yp).Evaluates ((scheme.stages - 1) * m) := by
  cases scheme with
  | euler =>
    have run : (euler.increment f t y h yp).Evaluates (0 + 0) :=
      evaluates_bind (evaluates_lift _) fun _ => evaluates_pure _
    simpa [stages] using run
  | midpoint =>
    have run : (midpoint.increment f t y h yp).Evaluates (0 + (m + (0 + 0))) :=
      evaluates_bind (evaluates_lift _) fun _ => evaluates_bind (each _ _) fun _ =>
        evaluates_bind (evaluates_lift _) fun _ => evaluates_pure _
    simpa [stages] using run
  | rk4 =>
    have run : (rk4.increment f t y h yp).Evaluates (0 + (m + (0 + (m + (0 + (m + (0 + 0))))))) :=
      evaluates_bind (evaluates_lift _) fun _ => evaluates_bind (each _ _) fun _ =>
        evaluates_bind (evaluates_lift _) fun _ => evaluates_bind (each _ _) fun _ =>
          evaluates_bind (evaluates_lift _) fun _ => evaluates_bind (each _ _) fun _ =>
            evaluates_bind (evaluates_lift _) fun _ => evaluates_pure _
    have total : 0 + (m + (0 + (m + (0 + (m + (0 + 0)))))) = (stages .rk4 - 1) * m := by
      simp only [stages]
      omega
    exact total ▸ run
  | abstract =>
    intro u b u' ran
    cases ran

theorem Scheme.stages_pos {scheme : Scheme} {f : Rat → State Rat → Effect (Tally ω) Rat (State Rat)}
    (ran : (scheme.increment f t y h yp).runFrom u = (.ok yNext, u')) : 0 < scheme.stages := by
  cases scheme with
  | euler | midpoint | rk4 => exact Nat.succ_pos _
  | abstract => cases ran

/-- The shapes of state and derivative at the start of a step, for which its stages are compiled. -/
def Step.shapes (s : Step Rat) : Shape × Shape := (s.y.shape, s.yp.shape)

namespace Stepper

/-- The evaluations that some steps make, if the stages have been compiled so many times. -/
def work (stepper : Stepper) (steps compilations : Nat) : Nat :=
  if stepper.compiles then steps + (stepper.scheme.stages - 1) * compilations else stepper.scheme.stages * steps

/-- With its last derivative, an increment pays for one step. What has been compiled grows by the
shapes that are new. -/
theorem increment_evaluations {stepper : Stepper}
    (ran : (stepper.increment f t y h yp).runFrom u = (.ok yNext, u')) :
    (∀ n, u'.evaluations + 1 + stepper.work n u.compiled.length
      = u.evaluations + stepper.work (n + 1) u'.compiled.length) ∧
    (stepper.compiles = true → (y.shape, yp.shape) ∈ u.compiled ∧ u'.compiled = u.compiled ∨
      (y.shape, yp.shape) ∉ u.compiled ∧ u'.compiled = (y.shape, yp.shape) :: u.compiled) := by
  rw [increment] at ran
  cases compiles : stepper.compiles with
  | false =>
    rw [compiles] at ran
    have stages := Scheme.stages_pos ran
    obtain ⟨more, _⟩ := stepper.scheme.evaluates_increment f.evaluates_call t y h yp u yNext u' ran
    refine ⟨fun n => ?_, nofun⟩
    obtain ⟨k, count⟩ := Nat.exists_eq_add_of_lt stages
    simp only [work, compiles, Bool.false_eq_true, if_false, more, count]
    simp only [Nat.zero_add, Nat.add_sub_cancel]
    ring
  | true =>
    rw [compiles] at ran
    simp only [Bool.not_true, Bool.false_eq_true, if_false, runFrom_bind, runFrom_get] at ran
    by_cases known : (y.shape, yp.shape) ∈ u.compiled
    · rw [if_pos (List.contains_iff_mem.mpr known)] at ran
      obtain ⟨more, same⟩ := stepper.scheme.evaluates_increment f.evaluates_compiledCall t y h yp u yNext u' ran
      refine ⟨fun n => ?_, fun _ => .inl ⟨known, same⟩⟩
      simp only [work, compiles, if_true, more, same]
      omega
    · rw [if_neg fun contained => known (List.contains_iff_mem.mp contained), runFrom_bind_ok] at ran
      obtain ⟨_, v, ran, finish⟩ := ran
      cases finish
      obtain ⟨more, same⟩ := stepper.scheme.evaluates_increment f.evaluates_compilingCall t y h yp u yNext v ran
      refine ⟨fun n => ?_, fun _ => .inr ⟨known, congrArg _ same⟩⟩
      simp only [work, compiles, if_true, more, same, List.length_cons]
      ring

private theorem proceed_evaluations {stepper : Stepper} {step : Step Rat}
    (ran : (stepper.proceed f t y h yp).runFrom u = (.ok step, u')) :
    (∀ n, u'.evaluations + stepper.work n u.compiled.length
      = u.evaluations + stepper.work (n + 1) u'.compiled.length) ∧
    (stepper.compiles = true → step.shapes ∈ u.compiled ∧ u'.compiled = u.compiled ∨
      step.shapes ∉ u.compiled ∧ u'.compiled = step.shapes :: u.compiled) := by
  rw [proceed, runFrom_bind_ok] at ran
  obtain ⟨yNext, v, incremented, ran⟩ := ran
  obtain ⟨ypNext, v', called, ran⟩ := runFrom_bind_ok.mp ran
  cases ran
  obtain ⟨paid, shapes⟩ := increment_evaluations incremented
  obtain ⟨more, same⟩ := f.evaluates_call _ _ v ypNext u' called
  rw [same]
  exact ⟨fun n => by rw [more, paid], shapes⟩

/-- A step pays for itself, and for the derivative at its start if that is not known. -/
theorem advance_evaluations {stepper : Stepper} {start : Option (State Rat)} {step : Step Rat}
    (ran : (stepper.advance f t y h start).runFrom u = (.ok step, u')) :
    (∀ n, u'.evaluations + stepper.work n u.compiled.length
      = u.evaluations + (if start.isNone then 1 else 0) + stepper.work (n + 1) u'.compiled.length) ∧
    (stepper.compiles = true → step.shapes ∈ u.compiled ∧ u'.compiled = u.compiled ∨
      step.shapes ∉ u.compiled ∧ u'.compiled = step.shapes :: u.compiled) := by
  cases start with
  | some yp =>
    rw [advance_known, runFrom_lift_bind_ok] at ran
    obtain ⟨size, _, ran⟩ := ran
    exact proceed_evaluations ran
  | none =>
    rw [advance_unknown, runFrom_lift_bind_ok] at ran
    obtain ⟨size, _, ran⟩ := ran
    obtain ⟨yp, v, called, ran⟩ := runFrom_bind_ok.mp ran
    obtain ⟨more, same⟩ := f.evaluates_call t y u yp v called
    obtain ⟨paid, shapes⟩ := proceed_evaluations ran
    rw [same, more] at paid
    rw [same] at shapes
    exact ⟨paid, shapes⟩

end Stepper

end

/-! ## The docket of a journal -/

/-- A group of events that is put to its handlers. -/
structure Hearing where
  /-- The step in which the group was found. -/
  step : Step Rat
  /-- The time of the events. -/
  t : Rat
  /-- The answers so far. -/
  answers : List Action

/-- The groups of events of a journal: those whose piece has been accepted, and the one whose piece is
still to come. -/
structure Docket where
  heard : List Hearing
  current : Option Hearing

/-- A docket with one more entry of the journal. -/
def Docket.add (d : Docket) : Entry Rat → Docket
  | .located window (first :: _) => { d with current := some ⟨window.step, first.t, []⟩ }
  | .answered _ action => { d with current := d.current.map fun h => { h with answers := h.answers ++ [action] } }
  | .accepted _ _ => ⟨d.heard ++ d.current.toList, none⟩
  | _ => d

/-- The groups of events of a journal. -/
def Journal.docket (j : Journal Rat) : Docket := j.foldl Docket.add ⟨[], none⟩

@[simp] theorem Journal.docket_append (j : Journal Rat) (e : Entry Rat) : (j ++ [e]).docket = j.docket.add e := by
  rw [docket, List.foldl_append]
  rfl

namespace Hearing

/-- All handlers let the run go on, inside the step. -/
def continues (h : Hearing) : Bool := h.answers.all (· == .carryOn) && h.t != h.step.tNext

/-- A handler resets the state or the derivatives before the target, and none ends the run. -/
def restarts (target : Rat) (h : Hearing) : Bool :=
  h.answers.all (· != .stop) && h.answers.any (· != .carryOn) && h.t != target

end Hearing

namespace Journal

/-- The number of groups with which a run has gone on inside their step. -/
def continued (j : Journal Rat) : Nat := j.docket.heard.countP Hearing.continues

/-- The number of groups behind which a run has started afresh. -/
def restarted (target : Rat) (j : Journal Rat) : Nat := j.docket.heard.countP (Hearing.restarts target)

/-- The shapes of state and derivative with which the steps of a run have started. -/
def shapes (j : Journal Rat) : List (Shape × Shape) := j.pieces.map fun (piece, _) => piece.step.shapes

theorem shapes_append (j j' : Journal Rat) : shapes (j ++ j') = j.shapes ++ j'.shapes := by
  rw [shapes, pieces, List.filterMap_append, List.map_append]
  rfl

end Journal

/-! ## The account between two moves -/

/-- What some members of a group have decided together, as a matter of their answers. -/
def Verdict.Sums (answers : List Action) : Verdict ω Rat → Prop
  | .carryOn => ∀ a ∈ answers, a = .carryOn
  | .restart => .stop ∉ answers ∧ ∃ a ∈ answers, a ≠ .carryOn
  | .replace _ _ => .stop ∉ answers ∧ ∃ a ∈ answers, a ≠ .carryOn
  | .stop => .stop ∈ answers

namespace Cut

/-- The docket holds the event of a cut as the current one, with the answers that have led to a verdict. -/
def Heard (cut : Cut) (verdict : Verdict ω Rat) (current : Option Hearing) : Prop :=
  ∃ answers, current = some ⟨cut.leg.step, cut.piece.stop, answers⟩ ∧ verdict.Sums answers

/-- One, if a piece that has been accepted leaves a part of its step, and none otherwise. -/
def underway (cut : Cut) : Verdict ω Rat → Nat
  | .carryOn => if cut.piece.stop = cut.leg.step.tNext then 0 else 1
  | _ => 0

/-- One, if the derivative behind a piece has to be evaluated anew, and none otherwise. -/
def due (cut : Cut) : Verdict ω Rat → Nat
  | .restart | .replace _ _ => if cut.atEnd then 0 else 1
  | _ => 0

end Cut

namespace Stage

/-- The docket holds the event that is being worked on at a stage. -/
def Hears (current : Option Hearing) : Stage ω → Prop
  | located leg _ first _ => current = some ⟨leg.step, first.t, []⟩
  | asking cut rest verdict => cut.Heard verdict current ∧ (verdict.isStop = true → rest = [])
  | awaiting cut _ _ _ verdict => cut.Heard verdict current ∧ verdict.isStop = false
  | decided cut _ verdict => cut.Heard verdict current ∨
      current = none ∧ verdict = .carryOn ∧ cut.piece.stop = cut.leg.step.tNext
  | _ => current = none

/-- The number of steps at a stage whose last piece is still to come. -/
def underway : Stage ω → Nat
  | scanning _ _ | located _ _ _ _ | asking _ _ _ | awaiting _ _ _ _ _ | decided _ _ _ => 1
  | accepted cut _ verdict | told cut verdict => cut.underway verdict
  | _ => 0

/-- The number of evaluations at a stage that are due before the next step. -/
def due : Stage ω → Nat
  | opening _ _ => 1
  | stepping _ _ yp => if yp.isNone then 1 else 0
  | accepted cut _ verdict | told cut verdict => cut.due verdict
  | restarting _ _ atEnd => if atEnd then 0 else 1
  | _ => 0

/-- The account of a run at a stage. -/
structure Reckoned (course : Course ω Rat) (p : Stage ω) (s : Session ω Rat) : Prop where
  hears : p.Hears s.journal.docket.current
  count : ∃ steps,
    s.tally.evaluations + p.due
      = 1 + course.stepper.work steps s.tally.compiled.length + s.journal.restarted course.target ∧
    s.accepted + p.underway = steps + s.journal.continued

end Stage

/-- Two sessions with the same account and the same tally but for the state of the caller. -/
def Session.Uncharged (s s' : Session ω Rat) : Prop := s.SameAccount s' ∧ s.tally.Like s'.tally

section

variable {course : Course ω Rat} {s s' s'' : Session ω Rat} {p q : Stage ω}

theorem Session.Uncharged.refl (s : Session ω Rat) : s.Uncharged s := ⟨.refl s, rfl, rfl⟩

theorem Session.Uncharged.trans (first : s.Uncharged s') (second : s'.Uncharged s'') : s.Uncharged s'' :=
  ⟨first.1.trans second.1, second.2.1.trans first.2.1, second.2.2.trans first.2.2⟩

theorem Session.uncharged_onMonitor {x : Effect (Monitor ω Rat × ω) Rat β} {b : β}
    (ran : (onMonitor x).runFrom s = (.ok b, s')) : s.Uncharged s' := by
  obtain ⟨_, _, _, rfl⟩ := onMonitor_ok.mp ran
  exact ⟨⟨rfl, rfl⟩, rfl, rfl⟩

theorem Session.uncharged_onObservers {x : Effect (List (Observer ω Rat) × ω) Rat β} {b : β}
    (ran : (onObservers x).runFrom s = (.ok b, s')) : s.Uncharged s' := by
  obtain ⟨_, _, _, rfl⟩ := onObservers_ok.mp ran
  exact ⟨⟨rfl, rfl⟩, rfl, rfl⟩

theorem Session.uncharged_outside {x : Effect ω Rat β} {b : β} (ran : (outside x).runFrom s = (.ok b, s')) :
    s.Uncharged s' := by
  obtain ⟨_, _, rfl⟩ := outside_ok.mp ran
  exact ⟨⟨rfl, rfl⟩, rfl, rfl⟩

theorem Course.uncharged_scan [Spacing Rat] {window : Window Rat} {group : List (Occurrence Rat)}
    (ran : (Course.scan window).runFrom s = (.ok group, s')) : s.Uncharged s' := by
  unfold Course.scan at ran
  rw [Effect.runFrom_bind, Effect.runFrom_get] at ran
  by_cases unwatched : s.monitor.channels.isEmpty = true
  · simp only [unwatched, if_true, Effect.runFrom_pure] at ran
    cases ran
    exact .refl s
  · simp only [unwatched] at ran
    exact uncharged_onMonitor ran

namespace Stage.Reckoned

/-- Where the same is due and under way, the account stays the same. -/
theorem congr (reckoned : p.Reckoned course s) (uncharged : s.Uncharged s')
    (hears : p.Hears s.journal.docket.current → q.Hears s.journal.docket.current) (due : q.due = p.due)
    (underway : q.underway = p.underway) : q.Reckoned course s' := by
  obtain ⟨account, evaluations, compiled⟩ := uncharged
  obtain ⟨steps, paid, counted⟩ := reckoned.count
  refine ⟨?_, steps, ?_, ?_⟩
  · rw [account.journal]
    exact hears reckoned.hears
  · rw [account.journal, evaluations, compiled, due]
    exact paid
  · rw [account.journal, account.2, underway]
    exact counted

/-- An entry that the docket does not hold leaves the account as it is. -/
theorem noted (reckoned : p.Reckoned course s) (e : Entry Rat) (silent : s.journal.docket.add e = s.journal.docket) :
    p.Reckoned course (s.noted e) := by
  have docket : (s.noted e).journal.docket = s.journal.docket := by rw [journal_noted, Journal.docket_append, silent]
  obtain ⟨steps, paid, counted⟩ := reckoned.count
  refine ⟨?_, steps, ?_, ?_⟩
  · rw [docket]
    exact reckoned.hears
  · rw [Journal.restarted, docket]
    exact paid
  · rw [Journal.continued, docket]
    exact counted

end Stage.Reckoned

theorem Course.nextLeg_evaluations {t : Rat} {y : State Rat} {yp : Option (State Rat)} {leg : Leg Rat}
    (ran : (course.nextLeg t y yp).runFrom s = (.ok leg, s')) :
    s.SameAccount s' ∧
    (∀ n, s'.tally.evaluations + course.stepper.work n s.tally.compiled.length
      = s.tally.evaluations + (if yp.isNone then 1 else 0)
        + course.stepper.work (n + 1) s'.tally.compiled.length) ∧
    (course.stepper.compiles = true →
      leg.step.shapes ∈ s.tally.compiled ∧ s'.tally.compiled = s.tally.compiled ∨
      leg.step.shapes ∉ s.tally.compiled ∧ s'.tally.compiled = leg.step.shapes :: s.tally.compiled) := by
  rw [Course.nextLeg, Effect.runFrom_bind_ok] at ran
  obtain ⟨step, s₁, taken, ran⟩ := ran
  cases ran
  obtain ⟨tally, advanced, rfl⟩ := onTally_ok.mp taken
  obtain ⟨paid, shapes⟩ := Stepper.advance_evaluations advanced
  refine ⟨⟨rfl, rfl⟩, paid, ?_⟩
  cases course.isLast t with
  | true => exact shapes
  | false => exact shapes

/-- A group leaves a part of its step exactly if it counts as one with which the run goes on. -/
theorem Cut.underway_eq {cut : Cut} {verdict : Verdict ω Rat} {answers : List Action}
    (sums : verdict.Sums answers) :
    cut.underway verdict = if Hearing.continues ⟨cut.leg.step, cut.piece.stop, answers⟩ then 1 else 0 := by
  have other {a : Action} (mem : a ∈ answers) (different : a ≠ .carryOn) :
      Hearing.continues ⟨cut.leg.step, cut.piece.stop, answers⟩ = false := by
    simp only [Hearing.continues, Bool.and_eq_false_iff, List.all_eq_false]
    exact .inl ⟨a, mem, by simpa using different⟩
  cases verdict with
  | carryOn =>
    have all : answers.all (· == .carryOn) = true := List.all_eq_true.mpr fun a mem => by simpa using sums a mem
    by_cases whole : cut.piece.stop = cut.leg.step.tNext
    · simp [Cut.underway, Hearing.continues, whole]
    · simp [Cut.underway, Hearing.continues, whole, all]
  | restart | replace _ _ =>
    obtain ⟨_, a, mem, different⟩ := sums
    rw [other mem different]
    rfl
  | stop =>
    rw [other sums nofun]
    rfl

/-- A group makes the next derivative due exactly if it counts as one behind which the run starts
afresh. -/
theorem Cut.due_eq {cut : Cut} {verdict : Verdict ω Rat} {answers : List Action} {target : Rat}
    (sums : verdict.Sums answers) (atEnd : cut.atEnd = true ↔ cut.piece.stop = target) :
    cut.due verdict = if Hearing.restarts target ⟨cut.leg.step, cut.piece.stop, answers⟩ then 1 else 0 := by
  have reset (mild : .stop ∉ answers) (moved : ∃ a ∈ answers, a ≠ .carryOn) :
      (if cut.atEnd then 0 else 1) =
        if Hearing.restarts target ⟨cut.leg.step, cut.piece.stop, answers⟩ then 1 else 0 := by
    have all : answers.all (· != .stop) = true :=
      List.all_eq_true.mpr fun a mem => bne_iff_ne.mpr fun same => mild (same ▸ mem)
    have any : answers.any (· != .carryOn) = true := by
      obtain ⟨a, mem, different⟩ := moved
      exact List.any_eq_true.mpr ⟨a, mem, bne_iff_ne.mpr different⟩
    by_cases reached : cut.piece.stop = target
    · simp [Hearing.restarts, atEnd.mpr reached, reached]
    · simp [Hearing.restarts, mt atEnd.mp reached, reached, all, any]
  cases verdict with
  | carryOn =>
    have calm : answers.any (· != .carryOn) = false :=
      List.any_eq_false.mpr fun a mem => by simpa using sums a mem
    simp [Cut.due, Hearing.restarts, calm]
  | restart | replace _ _ => exact reset sums.1 sums.2
  | stop =>
    have ended : answers.all (· != .stop) = false := List.all_eq_false.mpr ⟨.stop, sums, by simp⟩
    simp [Cut.due, Hearing.restarts, ended]

theorem Cut.hears_answered {cut : Cut} {o : Occurrence Rat} {handler : Handler ω Rat} {rest : List (Occurrence Rat)}
    {verdict : Verdict ω Rat} {action : Action} {d : Docket} (heard : cut.Heard verdict d.current)
    (going : verdict.isStop = false) :
    (cut.answered o handler rest verdict action).Hears (d.add (.answered o.index action)).current := by
  obtain ⟨answers, current, sums⟩ := heard
  have grown : (d.add (.answered o.index action)).current
      = some ⟨cut.leg.step, cut.piece.stop, answers ++ [action]⟩ := by
    simp [Docket.add, current]
  have mild : .stop ∉ answers := by
    cases verdict with
    | carryOn => exact fun mem => nomatch sums _ mem
    | restart | replace _ _ => exact sums.1
    | stop => cases going
  rw [grown]
  cases action with
  | carryOn =>
    refine ⟨⟨_, rfl, ?_⟩, fun stopped => by cases going.symm.trans stopped⟩
    cases verdict with
    | carryOn => simpa [Verdict.Sums, or_imp, forall_and] using sums
    | restart | replace _ _ => simpa [Verdict.Sums] using sums
    | stop => cases going
  | resetDerivatives => exact ⟨⟨_, rfl, by simpa [Verdict.Sums] using mild, .resetDerivatives, by simp, nofun⟩, nofun⟩
  | resetState => exact ⟨⟨_, rfl, by simpa [Verdict.Sums] using mild, .resetState, by simp, nofun⟩, nofun⟩
  | stop => exact ⟨⟨_, rfl, by simp [Verdict.Sums]⟩, fun _ => rfl⟩

theorem Cut.Fits.atEnd_iff [Spacing Rat] {cut : Cut} {t0 : Rat} (fits : cut.Fits course t0) :
    cut.atEnd = true ↔ cut.piece.stop = course.target := by
  have place := fits.atEnd
  constructor
  · intro atEnd
    rwa [atEnd, if_pos rfl] at place
  · intro reached
    by_contra before
    rw [if_neg before] at place
    exact place.ne reached

/-- Every move keeps the account. -/
theorem reckoned_move [Spacing Rat] {watches : List (Handler ω Rat × Settings Rat)} {t0 : Rat}
    (move : Move course (p, s) (q, s')) (route : p.OnRoute course watches t0 s.monitor)
    (before : p.Reckoned course s) : q.Reckoned course s' := by
  cases move with
  | @«open» t y yp _ s₁ _ _ derivative fits watched observed =>
    obtain ⟨tally, called, rfl⟩ := onTally_ok.mp derivative
    obtain ⟨more, same⟩ := course.equation.evaluates_call t y s.tally yp tally called
    obtain ⟨steps, paid, counted⟩ := before.count
    have begun : Stage.Reckoned course (.stepping t y (some yp) : Stage ω) { s with tally := tally } := by
      refine ⟨before.hears, steps, ?_, counted⟩
      change tally.evaluations + 0 = 1 + course.stepper.work steps tally.compiled.length + _
      rw [more, same]
      exact paid
    exact begun.congr ((uncharged_onMonitor watched).trans (uncharged_onObservers observed)) id rfl rfl
  | @step t y yp leg _ _ taken =>
    -- the step pays for the derivative that was due, and for one step more
    obtain ⟨account, work, _⟩ := Course.nextLeg_evaluations taken
    obtain ⟨steps, paid, counted⟩ := before.count
    refine ⟨?_, steps + 1, ?_, ?_⟩
    · rw [account.journal]
      exact before.hears
    · have paid' := work steps
      change s.tally.evaluations + (if yp.isNone then 1 else 0) = _ at paid
      change s'.tally.evaluations + 0 = _
      rw [account.journal]
      omega
    · change s.accepted + 0 = _ at counted
      change s'.accepted + 1 = _
      rw [account.journal, account.2]
      omega
  | @clear leg window _ _ scanned =>
    obtain ⟨covers, _⟩ := route
    exact before.congr (Course.uncharged_scan scanned) (fun unheard => .inr ⟨unheard, rfl, covers.stop⟩) rfl rfl
  | @locate leg window first rest _ s₁ scanned =>
    obtain ⟨covers, _⟩ := route
    have found : Stage.Reckoned course (.scanning leg window : Stage ω) s₁ :=
      before.congr (Course.uncharged_scan scanned) id rfl rfl
    have docket : (s₁.noted (.located window (first :: rest))).journal.docket
        = { s₁.journal.docket with current := some ⟨leg.step, first.t, []⟩ } := by
      rw [journal_noted, Journal.docket_append, Docket.add, covers.step]
    obtain ⟨steps, paid, counted⟩ := found.count
    refine ⟨?_, steps, ?_, ?_⟩
    · rw [docket]
      rfl
    · rw [Journal.restarted, docket]
      exact paid
    · rw [Journal.continued, docket]
      exact counted
  | @cut leg window first rest _ piece truncated =>
    obtain ⟨_, _, stop, _, _⟩ := Window.truncate_ok truncated
    refine before.congr (.refl s) (fun current => ⟨⟨[], ?_, fun a mem => absurd mem List.not_mem_nil⟩, nofun⟩) rfl rfl
    exact stop.symm ▸ current
  | @ask cut o rest verdict _ _ watched =>
    refine (before.noted (.asked _ _) rfl).congr (.refl _) (fun ⟨heard, last⟩ => ⟨heard, ?_⟩) rfl rfl
    exact Bool.eq_false_iff.mpr fun stopped => nomatch last stopped
  | @answer cut o handler rest verdict action _ s₁ s₂ answered acknowledged =>
    have called : Stage.Reckoned course (.awaiting cut o handler rest verdict) s₁ :=
      before.congr (uncharged_outside answered) id rfl rfl
    obtain ⟨heard, going⟩ := called.hears
    have docket : (s₁.noted (.answered o.index action)).journal.docket
        = s₁.journal.docket.add (.answered o.index action) := by
      rw [journal_noted, Journal.docket_append]
    have asking : (cut.answered o handler rest verdict action).due = 0 ∧
        (cut.answered o handler rest verdict action).underway = 1 := by
      cases action <;> exact ⟨rfl, rfl⟩
    have told : (cut.answered o handler rest verdict action).Reckoned course
        (s₁.noted (.answered o.index action)) := by
      obtain ⟨steps, paid, counted⟩ := called.count
      refine ⟨docket ▸ Cut.hears_answered heard going, steps, ?_, ?_⟩
      · rw [Journal.restarted, docket, asking.1]
        exact paid
      · rw [Journal.continued, docket, asking.2]
        exact counted
    exact told.congr (uncharged_onMonitor acknowledged) id rfl rfl
  | decide => exact before.congr (.refl s) (fun ⟨heard, _⟩ => .inl heard) rfl rfl
  | @accept cut last verdict _ affordable =>
    obtain ⟨fits, _⟩ := route
    obtain ⟨steps, paid, counted⟩ := before.count
    change s.tally.evaluations + 0 = _ at paid
    change s.accepted + 1 = _ at counted
    have docket : ({ s with accepted := s.accepted + 1 }.noted (.accepted cut.piece last)).journal.docket
        = ⟨s.journal.docket.heard ++ s.journal.docket.current.toList, none⟩ := by
      rw [journal_counted, Journal.docket_append]
      rfl
    -- the group is heard now: it counts as a restart if it makes a derivative due, and as one with which the run
    -- goes on if it leaves a part of the step
    refine ⟨docket ▸ rfl, steps, ?_, ?_⟩
    · change s.tally.evaluations + cut.due verdict = 1 + course.stepper.work steps s.tally.compiled.length + _
      rw [Journal.restarted, docket, List.countP_append]
      rcases before.hears with ⟨answers, current, sums⟩ | ⟨unheard, rfl, _⟩
      · rw [current, Cut.due_eq sums fits.atEnd_iff, Option.toList_some, List.countP_singleton]
        rw [Journal.restarted] at paid
        omega
      · rw [unheard]
        exact paid
    · change s.accepted + 1 + cut.underway verdict = _
      rw [Journal.continued, docket, List.countP_append]
      rcases before.hears with ⟨answers, current, sums⟩ | ⟨unheard, rfl, whole⟩
      · rw [current, Cut.underway_eq sums, Option.toList_some, List.countP_singleton]
        rw [Journal.continued] at counted
        omega
      · rw [unheard, Cut.underway, if_pos whole]
        exact counted
  | tell told => exact before.congr (uncharged_onObservers told) id rfl rfl
  | stop => exact (before.noted (.stopped _) rfl).congr (.refl _) id rfl rfl
  | replace reset fits =>
    have supplied := before.congr (q := .told _ _) (uncharged_outside reset) id rfl rfl
    exact (supplied.noted (.replaced _ _ _) rfl).congr (.refl _) id rfl rfl
  | restart => exact before.congr (.refl s) id rfl rfl
  | @refresh _ _ atEnd _ _ committed =>
    cases atEnd with
    | true => exact before.congr (uncharged_onMonitor committed) id rfl rfl
    | false => exact before.congr (uncharged_onMonitor committed) id rfl rfl
  | @resume cut _ _ _ committed resumed =>
    obtain ⟨⟨covers, _⟩, _⟩ := route
    cases resumed with
    | ended whole _ | stepping whole _ =>
      have underway : (Stage.told cut .carryOn : Stage ω).underway = 0 := if_pos (whole.trans covers.stop)
      exact before.congr (uncharged_onMonitor committed) id rfl underway.symm
    | scanning inner _ =>
      have underway : (Stage.told cut .carryOn : Stage ω).underway = 1 :=
        if_neg fun whole => inner (whole.trans covers.stop.symm)
      exact before.congr (uncharged_onMonitor committed) id rfl underway.symm

end

/-! ## What is compiled -/

namespace Stage

/-- The shapes of the step that is being worked on. -/
def shapes : Stage ω → List (Shape × Shape)
  | scanning leg _ | located leg _ _ _ => [leg.step.shapes]
  | asking cut _ _ | awaiting cut _ _ _ _ | decided cut _ _ | accepted cut _ _ | told cut _ => [cut.leg.step.shapes]
  | _ => []

/-- A piece belongs to the step that is being worked on, and its shapes are met once it is accepted. -/
def Aligned (met : List (Shape × Shape)) : Stage ω → Prop
  | asking cut _ _ | awaiting cut _ _ _ _ | decided cut _ _ => cut.piece.step = cut.leg.step
  | accepted cut _ _ | told cut _ => cut.leg.step.shapes ∈ met
  | _ => True

/-- What has been compiled at a stage: the shapes of all steps so far, each once. -/
structure Compiled (p : Stage ω) (s : Session ω Rat) : Prop where
  distinct : s.tally.compiled.Nodup
  met : ∀ x, x ∈ s.tally.compiled ↔ x ∈ s.journal.shapes ++ p.shapes
  aligned : p.Aligned s.journal.shapes

end Stage

section

variable {course : Course ω Rat} {s s' : Session ω Rat} {p q : Stage ω}

theorem Stage.Compiled.congr (compiled : p.Compiled s) (uncharged : s.Uncharged s')
    (shapes : ∀ x, x ∈ s.journal.shapes ++ q.shapes ↔ x ∈ s.journal.shapes ++ p.shapes)
    (aligned : p.Aligned s.journal.shapes → q.Aligned s.journal.shapes) : q.Compiled s' := by
  obtain ⟨account, _, same⟩ := uncharged
  refine ⟨?_, fun x => ?_, ?_⟩
  · rw [same]
    exact compiled.distinct
  · rw [same, account.journal, compiled.met, shapes]
  · rw [account.journal]
    exact aligned compiled.aligned

theorem Stage.Compiled.noted (compiled : p.Compiled s) (e : Entry Rat) (piece : e.piece? = none) :
    p.Compiled (s.noted e) := by
  have shapes : (s.noted e).journal.shapes = s.journal.shapes := by
    rw [journal_noted, Journal.shapes_append]
    simp [Journal.shapes, Journal.pieces, piece]
  refine ⟨compiled.distinct, fun x => ?_, ?_⟩
  · rw [shapes]
    exact compiled.met x
  · rw [shapes]
    exact compiled.aligned

/-- Behind a piece the shapes of its step are met, whether the step goes on or not. -/
theorem Cut.shapes_told {cut : Cut} {verdict : Verdict ω Rat} {met : List (Shape × Shape)}
    (aligned : (Stage.told cut verdict).Aligned met) (q : Stage ω) (shapes : ∀ x ∈ q.shapes, x = cut.leg.step.shapes)
    (x : Shape × Shape) : x ∈ met ++ q.shapes ↔ x ∈ met ++ (Stage.told cut verdict).shapes := by
  have old : cut.leg.step.shapes ∈ met := aligned
  have told : (Stage.told cut verdict).shapes = [cut.leg.step.shapes] := rfl
  rw [told, List.mem_append, List.mem_append, List.mem_singleton]
  constructor
  · rintro (known | new)
    · exact .inl known
    · exact .inr (shapes x new)
  · rintro (known | rfl)
    · exact .inl known
    · exact .inl old

/-- Every move keeps what has been compiled. -/
theorem compiled_move [Spacing Rat] {watches : List (Handler ω Rat × Settings Rat)} {t0 : Rat}
    (compiles : course.stepper.compiles = true) (move : Move course (p, s) (q, s'))
    (route : p.OnRoute course watches t0 s.monitor) (before : p.Compiled s) : q.Compiled s' := by
  cases move with
  | @«open» t y yp _ s₁ _ _ derivative fits watched observed =>
    obtain ⟨tally, called, rfl⟩ := onTally_ok.mp derivative
    obtain ⟨_, same⟩ := course.equation.evaluates_call t y s.tally yp tally called
    have begun : Stage.Compiled (.stepping t y (some yp) : Stage ω) { s with tally := tally } :=
      ⟨same ▸ before.distinct, fun x => same ▸ before.met x, trivial⟩
    exact begun.congr ((uncharged_onMonitor watched).trans (uncharged_onObservers observed)) (fun _ => .rfl) id
  | @step t y yp leg _ _ taken =>
    obtain ⟨account, _, shapes⟩ := Course.nextLeg_evaluations taken
    have earlier (x : Shape × Shape) : x ∈ s.tally.compiled ↔ x ∈ s.journal.shapes := by
      rw [before.met]
      exact iff_of_eq (congrArg (x ∈ ·) (List.append_nil _))
    have grown (x : Shape × Shape) : x ∈ s.journal.shapes ++ (Stage.scanning leg (.ofStep leg.step) : Stage ω).shapes ↔
        x ∈ s.tally.compiled ∨ x = leg.step.shapes := by
      rw [List.mem_append, earlier]
      exact or_congr_right List.mem_singleton
    rcases shapes compiles with ⟨known, same⟩ | ⟨new, more⟩
    · refine ⟨same ▸ before.distinct, fun x => ?_, trivial⟩
      rw [account.journal, grown, same]
      exact ⟨.inl, fun met => met.elim id fun here => here ▸ known⟩
    · refine ⟨more ▸ List.nodup_cons.mpr ⟨new, before.distinct⟩, fun x => ?_, trivial⟩
      rw [account.journal, grown, more, List.mem_cons, or_comm]
  | @clear leg window _ _ scanned =>
    exact before.congr (Course.uncharged_scan scanned) (fun _ => .rfl) fun _ => route.1.step
  | locate scanned =>
    have found : Stage.Compiled (.scanning _ _ : Stage ω) _ :=
      before.congr (Course.uncharged_scan scanned) (fun _ => .rfl) id
    exact (found.noted (.located _ _) rfl).congr (.refl _) (fun _ => .rfl) id
  | cut truncated =>
    obtain ⟨step, _⟩ := Window.truncate_ok truncated
    exact before.congr (.refl s) (fun _ => .rfl) fun _ => step.trans route.1.step
  | ask watched => exact (before.noted (.asked _ _) rfl).congr (.refl _) (fun _ => .rfl) id
  | @answer cut o handler rest verdict action _ s₁ s₂ answered acknowledged =>
    have called : Stage.Compiled (.awaiting cut o handler rest verdict) s₁ :=
      before.congr (uncharged_outside answered) (fun _ => .rfl) id
    refine (called.noted (.answered _ _) rfl).congr (uncharged_onMonitor acknowledged) ?_ ?_
    · cases action <;> exact fun _ => .rfl
    · cases action <;> exact id
  | decide => exact before.congr (.refl s) (fun _ => .rfl) id
  | @accept cut last verdict _ affordable =>
    have step : cut.piece.step = cut.leg.step := before.aligned
    have shapes : ({ s with accepted := s.accepted + 1 }.noted (.accepted cut.piece last)).journal.shapes
        = s.journal.shapes ++ [cut.leg.step.shapes] := by
      rw [journal_counted, Journal.shapes_append]
      exact congrArg (fun step => s.journal.shapes ++ [Step.shapes step]) step
    refine ⟨before.distinct, fun x => ?_, ?_⟩
    · rw [shapes, List.append_assoc]
      refine (before.met x).trans ?_
      change x ∈ s.journal.shapes ++ [cut.leg.step.shapes] ↔ x ∈ s.journal.shapes ++ [_, _]
      simp
    · rw [shapes]
      exact List.mem_append_right _ List.mem_cons_self
  | tell told => exact before.congr (uncharged_onObservers told) (fun _ => .rfl) id
  | @stop cut =>
    have noted := before.noted (.stopped cut.piece.stop) rfl
    exact noted.congr (.refl _) (Cut.shapes_told noted.aligned _ fun _ mem => absurd mem List.not_mem_nil)
      fun _ => trivial
  | @replace cut index handler y _ s₁ reset fits =>
    have supplied : Stage.Compiled (.told cut (.replace index handler)) s₁ :=
      before.congr (uncharged_outside reset) (fun _ => .rfl) id
    have noted := supplied.noted (.replaced index cut.piece.stop y) rfl
    exact noted.congr (.refl _) (Cut.shapes_told noted.aligned _ fun _ mem => absurd mem List.not_mem_nil)
      fun _ => trivial
  | restart =>
    exact before.congr (.refl s) (Cut.shapes_told before.aligned _ fun _ mem => absurd mem List.not_mem_nil)
      fun _ => trivial
  | @refresh _ _ atEnd _ _ committed =>
    cases atEnd with
    | true => exact before.congr (uncharged_onMonitor committed) (fun _ => .rfl) id
    | false => exact before.congr (uncharged_onMonitor committed) (fun _ => .rfl) id
  | resume committed resumed =>
    cases resumed with
    | ended | stepping =>
      exact before.congr (uncharged_onMonitor committed)
        (Cut.shapes_told before.aligned _ fun _ mem => absurd mem List.not_mem_nil) fun _ => trivial
    | scanning =>
      exact before.congr (uncharged_onMonitor committed)
        (Cut.shapes_told before.aligned _ fun _ mem => List.mem_singleton.mp mem) fun _ => trivial

end

/-! ## Whole runs -/

/-- The number of different shapes of state and derivative with which the steps of a run have started. -/
def Journal.compilations (j : Journal Rat) : Nat := j.shapes.dedup.length

theorem Journal.compilations_eq {j : Journal Rat} {met : List (Shape × Shape)} (distinct : met.Nodup)
    (same : ∀ x, x ∈ met ↔ x ∈ j.shapes) : j.compilations = met.length :=
  ((List.perm_ext_iff_of_nodup (List.nodup_dedup _) distinct).mpr fun x =>
    List.mem_dedup.trans (same x).symm).length_eq

theorem Journal.compilations_of_same {j : Journal Rat} {x : Shape × Shape} (begun : x ∈ j.shapes)
    (same : ∀ a ∈ j.shapes, ∀ b ∈ j.shapes, a = b) : j.compilations = 1 := by
  refine compilations_eq (List.nodup_singleton x) fun a => ?_
  rw [List.mem_singleton]
  exact ⟨fun here => here ▸ begun, fun mem => same a mem x begun⟩

namespace Engine

variable {e e' : Engine ω Rat} {equation : Equation ω Rat} {t0 target t : Rat} {y0 y : State Rat} {w w' : ω}

section

variable [Spacing Rat] {course : Course ω Rat} {q : Stage ω} {u : Session ω Rat}
  {watches : List (Handler ω Rat × Settings Rat)} {observers : List (Observer ω Rat)}

private theorem reckoned_path (directed : course.Directed watches t0)
    (path : Moves course (.opening t0 y0, Session.start w (Monitor.create watches) observers) (q, u)) :
    q.Reckoned course u := by
  have work : course.stepper.work 0 0 = 0 := by
    rw [Stepper.work]
    split <;> rfl
  have begun : Stage.Reckoned course (.opening t0 y0) (Session.start w (Monitor.create watches) observers) := by
    refine ⟨rfl, 0, ?_, rfl⟩
    change 0 + 1 = 1 + course.stepper.work 0 0 + 0
    rw [work]
  exact (path.preserve (P := fun q u => q.OnRoute course watches t0 u.monitor ∧ q.Reckoned course u)
    ⟨⟨rfl, rfl⟩, begun⟩ fun _ _ _ _ ⟨route, reckoned⟩ move =>
      ⟨onRoute_move directed move route, reckoned_move move route reckoned⟩).2

private theorem compiled_path (directed : course.Directed watches t0) (compiles : course.stepper.compiles = true)
    (path : Moves course (.opening t0 y0, Session.start w (Monitor.create watches) observers) (q, u)) :
    q.Compiled u := by
  have begun : Stage.Compiled (.opening t0 y0) (Session.start w (Monitor.create watches) observers) :=
    ⟨List.nodup_nil, fun _ => .rfl, trivial⟩
  exact (path.preserve (P := fun q u => q.OnRoute course watches t0 u.monitor ∧ q.Compiled u)
    ⟨⟨rfl, rfl⟩, begun⟩ fun _ _ _ _ ⟨route, compiled⟩ move =>
      ⟨onRoute_move directed move route, compiled_move compiles move route compiled⟩).2

end

/-- The evaluations of a run that returns. Every piece but those behind which their step goes on
stands for one step; a run makes one evaluation more at its start, and another one wherever it starts
afresh before the target. Stages that are compiled are evaluated once for each pair of shapes, so once
in a run whose steps all start with the same ones. -/
theorem integrate_evaluations [Spacing Rat] (usable : e.Usable)
    (ran : (integrate equation t0 y0 target).runFrom (e, w) = (.ok (t, y), e', w')) :
    e'.journal.continued ≤ e'.accepted ∧
    (e.stepper.compiles = false → e'.evaluations =
      1 + e.stepper.scheme.stages * (e'.accepted - e'.journal.continued) + e'.journal.restarted target) ∧
    (e.stepper.compiles = true →
      e'.evaluations = 1 + (e.stepper.scheme.stages - 1) * e'.journal.compilations
        + (e'.accepted - e'.journal.continued) + e'.journal.restarted target ∧
      ((∀ a ∈ e'.journal.shapes, ∀ b ∈ e'.journal.shapes, a = b) → e'.evaluations =
        1 + (e.stepper.scheme.stages - 1) + (e'.accepted - e'.journal.continued)
          + e'.journal.restarted target)) := by
  obtain ⟨⟨_, _, refused⟩, _⟩ | ⟨course, u, prepared, finished, journal, accepted, evaluations, _⟩ := integrate_run ran
  · cases refused
  obtain ⟨directed, _, stepper, goal, _⟩ := prepare_ok usable prepared
  obtain ⟨_, v, path, _, returned⟩ := run_path finished
  obtain ⟨rfl, rfl⟩ := returned t y rfl
  obtain ⟨_, steps, paid, counted⟩ := reckoned_path directed path
  rw [stepper, goal] at paid
  change v.tally.evaluations + 0 = _ at paid
  change v.accepted + 0 = _ at counted
  rw [journal, accepted, evaluations]
  have number : v.accepted - v.journal.continued = steps := by omega
  refine ⟨by omega, fun interpreted => ?_, fun compiles => ?_⟩
  · rw [number]
    rw [Stepper.work, interpreted, if_neg Bool.false_ne_true] at paid
    exact paid
  · obtain ⟨distinct, met, _⟩ := compiled_path directed (stepper ▸ compiles) path
    have compilations := Journal.compilations_eq distinct fun x =>
      (met x).trans (iff_of_eq (congrArg (x ∈ ·) (List.append_nil v.journal.shapes)))
    have total : v.tally.evaluations = 1 + (e.stepper.scheme.stages - 1) * v.journal.compilations
        + (v.accepted - v.journal.continued) + v.journal.restarted target := by
      rw [number, compilations]
      rw [Stepper.work, compiles, if_pos rfl] at paid
      omega
    refine ⟨total, fun same => ?_⟩
    obtain ⟨earlier, final, pieces⟩ := (Course.run_pieces rfl rfl finished).2.2.2 _ rfl
    have begun : final.step.shapes ∈ v.journal.shapes := List.mem_map.mpr ⟨(final, true), by simp [pieces], rfl⟩
    rw [total, Journal.compilations_of_same begun same, Nat.mul_one]

/-- A run of three steps: the first one goes on behind an event and is cut at the next one, which resets the
derivatives. -/
theorem timers_evaluations :
    letI := Spacing.gapless
    let settings : Settings Rat := ⟨none, 1 / 100, 100, none⟩
    let timers := timed 1 [(.timer (1 / 4) .carryOn (.ofList [0]), settings),
      (.timer (1 / 2) .resetDerivatives (.ofList [0]), settings)]
    let run (compiles : Bool) :=
      (integrate .steady 0 (.ofList [0]) 2).runFrom ({ timers with stepper := ⟨.rk4, compiles⟩ }, ())
    (∀ compiles, (run compiles).1 = .ok (2, .ofList [2]) ∧ (run compiles).2.1.accepted = 4 ∧
      (run compiles).2.1.journal.continued = 1 ∧ (run compiles).2.1.journal.restarted 2 = 1) ∧
    (run false).2.1.evaluations = 1 + 4 * (4 - 1) + 1 ∧ (run true).2.1.evaluations = 1 + 3 + (4 - 1) + 1 := by
  let := Spacing.gapless
  intro settings timers run
  have usable (compiles : Bool) : Usable { timers with stepper := ⟨.rk4, compiles⟩ } :=
    have usable : timers.Usable := usable_timed (by decide +kernel) (by decide +kernel)
    ⟨usable.size, usable.valid⟩
  have account (compiles : Bool) : (run compiles).1 = .ok (2, .ofList [2]) ∧ (run compiles).2.1.accepted = 4 ∧
      (run compiles).2.1.journal.continued = 1 ∧ (run compiles).2.1.journal.restarted 2 = 1 := by
    cases compiles <;> decide +kernel
  have counts (compiles : Bool) := integrate_evaluations (usable compiles)
    (Prod.ext (account compiles).1 rfl : run compiles = (.ok (2, .ofList [2]), (run compiles).2))
  refine ⟨account, ?_, ?_⟩
  · have total := (counts false).2.1 rfl
    rwa [(account false).2.1, (account false).2.2.1, (account false).2.2.2] at total
  · have total := ((counts true).2.2 rfl).2 (by decide +kernel)
    rwa [(account true).2.1, (account true).2.2.1, (account true).2.2.2] at total

end Engine

end Trajectory
