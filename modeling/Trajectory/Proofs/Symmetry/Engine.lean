import Mathlib.Tactic
import Trajectory.Proofs.Engine
import Trajectory.Proofs.Symmetry.Run

/-!
Engines under a symmetry.

An engine whose handlers and observers are images of those of another engine (`Engine.Image`) carries
out the image of the run that the other one carries out, or refuses it as the other one does
(`Engine.agree_integrate`). If the symmetry turns time back, the step size has to be positive, since a
negative one only allows runs to earlier times.
-/

namespace Trajectory

variable {ω : Type} {sym : Symmetry}

/-- An engine and the one in its place, with the accounts of their last runs. -/
structure Engine.Image (sym : Symmetry) (e e' : Engine ω Rat) : Prop where
  stepper : e'.stepper = e.stepper
  stepSize : e'.stepSize = e.stepSize
  maxSteps : e'.maxSteps = e.maxSteps
  watches : Indexed (fun i watch watch' => watch' = (watch.1.image sym i, watch.2)) 0 e.watches e'.watches
  observers : Indexed (fun _ => Observer.Image sym False) 0 e.observers e'.observers
  status : e'.status = e.status
  evaluations : e'.evaluations = e.evaluations
  accepted : e'.accepted = e.accepted
  journal : e'.journal = e.journal.map (Entry.image sym)

namespace Engine

variable {e e' : Engine ω Rat}

theorem Image.matched_signedStep (image : e.Image sym e') (fits : sym.sign = 1 ∨ 0 < e.stepSize) (forward : Bool) :
    Matched (Error.Alike sym) (fun h h' => h' = sym.time h) (e.signedStep forward)
      (e'.signedStep (sym.way forward)) := by
  rcases sym.way_cases with ⟨sign, way⟩ | ⟨sign, way⟩
  · rw [signedStep, signedStep, way, image.stepSize]
    split
    · exact .error (Error.alike_refl sym _)
    · refine .ok ?_
      rw [Symmetry.time, sign, one_mul]
  · have positive : 0 < e.stepSize := fits.resolve_left (by rw [sign]; norm_num)
    have allowed : decide (e.stepSize < 0.0) = false := decide_eq_false (by norm_num [positive.le])
    rw [signedStep, signedStep, way, image.stepSize, allowed, Bool.and_false, Bool.and_false, if_neg Bool.false_ne_true,
      if_neg Bool.false_ne_true]
    refine .ok ?_
    rw [Symmetry.time, sign]
    cases forward <;> simp

/-- The course of the image of a run is the image of the course. -/
theorem Image.matched_prepare (image : e.Image sym e') (fits : sym.sign = 1 ∨ 0 < e.stepSize)
    (equation : Equation ω Rat) (t0 : Rat) (y0 : State Rat) (target : Rat) :
    Matched (Error.Alike sym) (fun course course' => course' = course.image sym ∧ t0 ≠ course.target)
      (e.prepare equation t0 y0 target) (e'.prepare (equation.image sym) (sym.time t0) y0 (sym.time target)) := by
  have distance : Scalar.abs (sym.time target - sym.time t0) = Scalar.abs (target - t0) := by
    rw [← sym.time_sub, Scalar.abs_rat, Scalar.abs_rat, sym.abs_time]
  have extent : Scalar.larger (Scalar.abs (sym.time t0)) (Scalar.abs (sym.time target)) =
      Scalar.larger (Scalar.abs t0) (Scalar.abs target) := by
    simp only [Scalar.abs_rat, sym.abs_time]
  unfold prepare
  refine (Matched.refl (Error.alike_refl sym) _).bind fun _ _ _ => ?_
  refine (Matched.refl (Error.alike_refl sym) (equation.requireSize .state y0)).bind fun _ _ _ => ?_
  rw [distance, extent]
  split
  · exact .error (Error.alike_image rfl)
  · rename_i apart
    have different : t0 ≠ target := ne_of_apart apart
    dsimp only
    rw [sym.decide_lt_time different]
    refine (image.matched_signedStep fits _).bind ?_
    rintro h _ rfl
    refine .ok ⟨?_, different⟩
    rw [image.stepper, image.maxSteps]
    rfl

variable [Spacing Rat]

/-- The image of an engine carries out the image of a run, or refuses it as the engine refuses the
run. -/
theorem agree_integrate (usable : e.Usable) (fits : sym.sign = 1 ∨ 0 < e.stepSize) (image : e.Image sym e')
    (equation : Equation ω Rat) (t0 : Rat) (y0 : State Rat) (target : Rat) (w : ω) :
    let run := (integrate equation t0 y0 target).runFrom (e, w)
    let run' := (integrate (equation.image sym) (sym.time t0) y0 (sym.time target)).runFrom (e', w)
    Matched (Error.Alike sym) (fun p p' => p' = sym.row p) run.1 run'.1 ∧ run.2.1.Image sym run'.2.1 ∧
      run'.2.2 = run.2.2 := by
  have prepared := image.matched_prepare fits equation t0 y0 target
  simp only [integrate, Effect.runFrom_bind, Effect.runFrom_get, Effect.runFrom_lift]
  generalize e.prepare equation t0 y0 target = r at prepared
  generalize e'.prepare (equation.image sym) (sym.time t0) y0 (sym.time target) = r' at prepared
  cases prepared with
  | error alike => exact ⟨.error alike, image, rfl⟩
  | @ok course _ related =>
    obtain ⟨rfl, different⟩ := related
    have begun : (Session.start w (Monitor.create e.watches) e.observers).Image sym False False
        (Session.start w (Monitor.create e'.watches) e'.observers) :=
      ⟨rfl, .create usable.valid image.watches, image.observers, rfl, rfl⟩
    obtain ⟨matched, ended⟩ := Course.agree_run course different y0 _ _ begun
    simp only [Effect.runFrom_modify]
    generalize (course.run t0 y0).runFrom
      (Session.start w (Monitor.create e.watches) e.observers) = run at matched ended
    generalize ((course.image sym).run (sym.time t0) y0).runFrom
      (Session.start w (Monitor.create e'.watches) e'.observers) = run' at matched ended
    obtain ⟨outcome, session⟩ := run
    obtain ⟨outcome', session'⟩ := run'
    refine ⟨matched, { image with
      observers := ended.observers
      status := ?_
      evaluations := congrArg Tally.evaluations ended.tally
      accepted := ended.accepted
      journal := ?_ }, congrArg Tally.world ended.tally⟩
    · cases matched with
      | error alike => simp only [RunStatus.after, alike.isFailure]
      | ok _ => rfl
    · dsimp only
      rw [Session.journal, Session.journal, ended.entries, List.map_reverse]

end Engine

end Trajectory
