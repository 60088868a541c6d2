import Mathlib.Tactic
import Trajectory.Proofs.Part
import Trajectory.Proofs.Reaction

/-!
The dense output of a run.

A window shows its step if it is a part of it and starts with the state that the step has there
(`Leg.Shows`). Then whatever it answers is what the step answers (`Leg.Shows.stateAt`), however often
a handler has narrowed it before. Every window and every piece of a run shows its step
(`shows_moves`).
-/

namespace Trajectory

open Session

variable {ω : Type} [Spacing Rat] {forward : Bool} {leg : Leg Rat} {window left piece : Window Rat} {t : Rat}
  {y : State Rat}

/-- A window that answers at all of its times as the step does. -/
structure Leg.Shows (forward : Bool) (leg : Leg Rat) (window : Window Rat) : Prop where
  part : window.Part forward leg.step
  yStart : (Window.ofStep leg.step).stateAt window.start = .ok window.yStart

namespace Leg.Shows

theorem ofStep (gaps : ∀ x : Rat, 0 ≤ Spacing.ulp x) (ahead : Precedes forward leg.step.t leg.step.tNext) :
    leg.Shows forward (.ofStep leg.step) := by
  have part := Window.part_ofStep gaps ahead
  have inside : (Window.ofStep leg.step).check leg.step.t = .ok () :=
    Window.check_inside (w := .ofStep leg.step) gaps .refl ahead.notAfter
  refine ⟨part, ?_⟩
  rw [Window.stateAt, except_bind_ok]
  exact ⟨(), inside, if_pos (beq_self_eq_true _)⟩

theorem stateAt (gaps : ∀ x : Rat, 0 ≤ Spacing.ulp x) (shown : leg.Shows forward window)
    (begun : NotAfter forward window.start t) (reached : NotAfter forward t window.stop)
    (answered : window.stateAt t = .ok y) : (Window.ofStep leg.step).stateAt t = .ok y := by
  by_cases start : window.start = t
  · subst start
    rw [Window.stateAt_start answered]
    exact shown.yStart
  · exact shown.part.stateAt gaps (begun.precedes_of_ne start) reached answered

theorem truncate (gaps : ∀ x : Rat, 0 ≤ Spacing.ulp x) (shown : leg.Shows forward window)
    (behind : Precedes forward window.start t) (reached : NotAfter forward t window.stop)
    (cut : window.truncate t = .ok piece) : leg.Shows forward piece := by
  obtain ⟨_, start, _, yStart, _⟩ := Window.truncate_ok cut
  refine ⟨shown.part.truncate gaps behind reached cut, ?_⟩
  rw [start, yStart]
  exact shown.yStart

theorem rest (gaps : ∀ x : Rat, 0 ≤ Spacing.ulp x) (shown : leg.Shows forward window)
    (begun : NotAfter forward window.start t) (before : Precedes forward t window.stop)
    (narrowed : window.restrict t window.stop = .ok left) : leg.Shows forward left := by
  obtain ⟨_, start, _, yStart, _⟩ := Window.restrict_ok narrowed
  refine ⟨shown.part.rest gaps begun before narrowed, ?_⟩
  rw [start]
  exact shown.stateAt gaps begun before.notAfter yStart

end Leg.Shows

/-- The window and the piece of a cut show its step. -/
structure Cut.Shows (forward : Bool) (cut : Cut) : Prop where
  window : cut.leg.Shows forward cut.window
  piece : cut.leg.Shows forward cut.piece

/-- The windows and pieces at a stage show their step. -/
def Stage.Shows (forward : Bool) : Stage ω → Prop
  | opening _ _ => True
  | stepping _ _ _ => True
  | scanning leg window => leg.Shows forward window
  | located leg window _ _ => leg.Shows forward window
  | asking cut _ _ => cut.Shows forward
  | awaiting cut _ _ _ _ => cut.Shows forward
  | decided cut _ _ => cut.Shows forward
  | accepted cut _ _ => cut.Shows forward
  | told cut _ => cut.Shows forward
  | restarting _ _ _ => True
  | ended _ _ => True

variable {course : Course ω Rat} {watches : List (Handler ω Rat × Settings Rat)} {t0 : Rat} {s s' : Session ω Rat}
  {p q : Stage ω}

/-- Every move leads to windows that show their step. -/
theorem shows_move (gaps : ∀ x : Rat, 0 ≤ Spacing.ulp x) (directed : course.Directed watches t0)
    (move : Move course (p, s) (q, s')) (route : p.OnRoute course watches t0 s.monitor)
    (before : p.Shows course.forward) : q.Shows course.forward := by
  cases move with
  | step taken =>
    obtain ⟨begun, ahead, _⟩ := route
    exact .ofStep gaps (directed.covers_ofStep begun ahead taken).ahead
  | clear scanned => exact ⟨before, before⟩
  | cut truncated =>
    obtain ⟨_, _, reached, reported⟩ := route
    have first := reported _ List.mem_cons_self
    have ahead := (first.inside directed).1.trans_notAfter first.reached
    exact ⟨before, before.truncate gaps ahead reached truncated⟩
  | @answer cut o handler rest verdict action _ _ _ answered acknowledged =>
    cases action with
    | carryOn | resetDerivatives | resetState | stop => exact before
  | @refresh t y atEnd _ _ committed => cases atEnd <;> trivial
  | resume committed resumed =>
    obtain ⟨fits, _, _⟩ := route
    cases resumed with
    | ended whole last => trivial
    | stepping whole more => trivial
    | scanning inner narrowed =>
      have begun := fits.ahead.notAfter
      rw [fits.start] at begun
      exact before.window.rest gaps begun (fits.reached.precedes_of_ne inner) narrowed
  | «open» => trivial
  | replace => trivial
  | restart => trivial
  | stop => trivial
  | locate scanned => exact before
  | ask watched => exact before
  | decide => exact before
  | accept affordable => exact before
  | tell told => exact before

/-- All windows and pieces of a run show their step. -/
theorem shows_moves {y0 : State Rat} (gaps : ∀ x : Rat, 0 ≤ Spacing.ulp x) (directed : course.Directed watches t0)
    (path : Moves course (.opening t0 y0, s) (q, s')) (created : s.monitor = Monitor.create watches) :
    q.OnRoute course watches t0 s'.monitor ∧ q.Shows course.forward :=
  path.preserve (P := fun q u => q.OnRoute course watches t0 u.monitor ∧ q.Shows course.forward)
    ⟨⟨rfl, congrArg Monitor.channels created⟩, trivial⟩
    fun _ _ _ _ ⟨route, shown⟩ move => ⟨onRoute_move directed move route, shows_move gaps directed move route shown⟩

end Trajectory
