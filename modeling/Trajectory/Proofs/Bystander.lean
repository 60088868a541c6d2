import Mathlib.Tactic
import Trajectory.Proofs.Delivery
import Trajectory.Proofs.Twins

/-!
Observers that only look on.

A recorder, a sampler or a tracker does not call anything of the caller. A run that returns with one of
these behind its other observers does the same without it (`Engine.integrate_addObserver`), and a run
that returns does the same with one that can hear of all of its pieces (`Engine.integrate_joined`). This
holds for every kind of scalars.
-/

namespace Trajectory

open Effect

variable {ω α β : Type}

/-- An observer that leaves the state of the caller alone. -/
def Observer.Quiet : Observer ω α → Prop
  | .recorder _ => True
  | .sampler _ => True
  | .tracker _ => True
  | .normalizer _ => False
  | .custom _ _ => False

/-- A session with one more observer behind the others. -/
def Session.joinedBy (s : Session ω α) (o : Observer ω α) : Session ω α :=
  { s with observers := s.observers ++ [o] }

/-- A computation for which one more observer makes no difference. -/
def Effect.Unjoined (x : Effect (Session ω α) α β) : Prop :=
  ∀ (s : Session ω α) o, x.runFrom (s.joinedBy o) = ((x.runFrom s).1, (x.runFrom s).2.joinedBy o)

variable [Scalar α]

section

variable {o o' : Observer ω α} {w w' : ω}

/-- What a quiet observer makes of a start does not depend on the state of the caller, and leaves it alone. -/
theorem Observer.Quiet.start (quiet : o.Quiet) {t0 target : α} {y0 : State α}
    (ran : (Observer.start t0 y0 target).runFrom (o, w) = (.ok (), o', w')) :
    o'.Quiet ∧ w' = w ∧ ∀ v, (Observer.start t0 y0 target).runFrom (o, v) = (.ok (), o', v) := by
  cases o with
  | recorder r =>
    cases ran
    exact ⟨trivial, rfl, fun _ => rfl⟩
  | sampler s =>
    cases ran
    exact ⟨trivial, rfl, fun _ => rfl⟩
  | tracker k =>
    cases ran
    exact ⟨trivial, rfl, fun _ => rfl⟩
  | normalizer n => exact quiet.elim
  | custom onStart onPiece => exact quiet.elim

/-- What a quiet observer makes of a piece does not depend on the state of the caller, and leaves it alone. -/
theorem Observer.Quiet.accept [Spacing α] (quiet : o.Quiet) {piece : Window α} {last : Bool}
    (ran : (Observer.accept piece last).runFrom (o, w) = (.ok (), o', w')) :
    o'.Quiet ∧ w' = w ∧ ∀ v, (Observer.accept piece last).runFrom (o, v) = (.ok (), o', v) := by
  cases o with
  | recorder r =>
    cases ran
    exact ⟨trivial, rfl, fun _ => rfl⟩
  | sampler s =>
    rcases taken : s.accept piece with ⟨r, s'⟩
    simp only [Observer.accept, runFrom_of, taken] at ran ⊢
    cases ran
    exact ⟨trivial, rfl, fun _ => rfl⟩
  | tracker k =>
    rcases measured : (Tracker.accept piece last).runFrom k with ⟨r, k'⟩
    simp only [Observer.accept, runFrom_of, measured] at ran ⊢
    cases ran
    exact ⟨trivial, rfl, fun _ => rfl⟩
  | normalizer n => exact quiet.elim
  | custom onStart onPiece => exact quiet.elim

end

namespace Session

omit [Scalar α] in
theorem twins_joinedBy (s : Session ω α) (o : Observer ω α) :
    s.Twins Eq True (fun os os' => os' = os ++ [o]) (s.joinedBy o) :=
  ⟨⟨rfl, fun _ => rfl, rfl⟩, rfl, fun c _ => c.handler.respects_eq, rfl, rfl, rfl⟩

omit [Scalar α] in
theorem Twins.joinedBy {s s' : Session ω α} {o : Observer ω α}
    (twins : s.Twins Eq True (fun os os' => os' = os ++ [o]) s') : s' = s.joinedBy o := by
  obtain ⟨⟨world, evaluations, compiled⟩, monitor, _, observers, accepted, entries⟩ := twins
  obtain ⟨⟨world', evaluations', compiled'⟩, monitor', observers', accepted', entries'⟩ := s'
  simp only [forall_const] at world evaluations compiled monitor observers accepted entries
  simp only [Session.joinedBy, ← world, evaluations, compiled, monitor, observers, accepted, entries]

end Session

omit [Scalar α] in
/-- What is alike in sessions with and without an observer is not joined by it. -/
theorem Effect.Alike.unjoined {x : Effect (Session ω α) α β}
    (alike : ∀ o, Alike (Session.Twins Eq True (fun os os' => os' = os ++ [o])) (fun _ => True) x x) : x.Unjoined := by
  intro s o
  obtain ⟨same, twins, _⟩ := alike o s _ (s.twins_joinedBy o)
  exact Prod.ext same twins.joinedBy

variable {s s' s₁ : Session ω α} {o o' : Observer ω α}

omit [Scalar α] in
theorem Effect.Unjoined.joined {x : Effect (Session ω α) α β} (unjoined : x.Unjoined) {r : Except (Error α) β}
    (ran : x.runFrom s = (r, s')) (o : Observer ω α) : x.runFrom (s.joinedBy o) = (r, s'.joinedBy o) := by
  rw [unjoined, ran]

omit [Scalar α] in
theorem Effect.Unjoined.left {x : Effect (Session ω α) α β} (unjoined : x.Unjoined) {r : Except (Error α) β}
    (ran : x.runFrom (s.joinedBy o) = (r, s')) : ∃ s₁, x.runFrom s = (r, s₁) ∧ s' = s₁.joinedBy o := by
  rw [unjoined] at ran
  cases ran
  exact ⟨_, rfl, rfl⟩

namespace Session

/-- A session in which a piece has been accepted, and no observer has heard of it. -/
def counted (s : Session ω α) (piece : Window α) (last : Bool) : Session ω α :=
  { s with accepted := s.accepted + 1, latestEntries := .accepted piece last :: s.latestEntries }

theorem runFrom_deliver [Spacing α] (s : Session ω α) (piece : Window α) (last : Bool) :
    (deliver piece last).runFrom s = (onObservers (forEach (Observer.accept piece last))).runFrom (s.counted piece last) :=
  rfl

omit [Scalar α] in
/-- What the observers hear is heard by those before the last one, and then by that one. -/
theorem onObservers_left {x : Effect (Observer ω α × ω) α Unit}
    (ran : (onObservers (forEach x)).runFrom (s.joinedBy o) = (.ok (), s')) : ∃ s₁ v o' v',
      x.runFrom (o, v) = (.ok (), o', v') ∧
        (v' = v → (onObservers (forEach x)).runFrom s = (.ok (), s₁) ∧ s' = s₁.joinedBy o') := by
  obtain ⟨⟨os, w⟩, heard, rfl⟩ := runFrom_within_ok.mp ran
  obtain ⟨others, v, o', before, last, rfl⟩ := forEach_concat_ok heard
  refine ⟨{ s with observers := others, tally := { s.tally with world := v } }, v, o', w, last, ?_⟩
  rintro rfl
  exact ⟨runFrom_within_ok.mpr ⟨(others, w), before, rfl⟩, rfl⟩

omit [Scalar α] in
theorem onObservers_joined {x : Effect (Observer ω α × ω) α Unit}
    (ran : (onObservers (forEach x)).runFrom s = (.ok (), s')) (told : ∀ v, x.runFrom (o, v) = (.ok (), o', v)) :
    (onObservers (forEach x)).runFrom (s.joinedBy o) = (.ok (), s'.joinedBy o') := by
  obtain ⟨⟨os, w⟩, heard, rfl⟩ := runFrom_within_ok.mp ran
  exact runFrom_within_ok.mpr ⟨(os ++ [o'], w), forEach_concat heard (told w), rfl⟩

end Session

namespace Course

variable [Spacing α] {course : Course ω α} {phase : Phase α} {h : Handover ω α}

theorem unjoined_approach (course : Course ω α) (phase : Phase α) : (course.approach phase).Unjoined :=
  Alike.unjoined fun _ => (alike_approach course.equation.toRate.respects_eq phase).mono fun _ _ => trivial

/-- Behind its handover a pass does not depend on the observers. -/
theorem unjoined_rest (approached : (course.approach phase).runFrom s = (.ok h, s')) : h.rest.Unjoined := by
  refine Alike.unjoined fun o => ?_
  have alike := alike_approach course.equation.toRate.respects_eq phase _ _ (s.twins_joinedBy o)
  exact alike.2.2 h (congrArg Prod.fst approached)

omit [Spacing α] in
theorem begin_left (quiet : o.Quiet) {t0 : α} {y0 yp : State α}
    (ran : (course.begin t0 y0).runFrom (s.joinedBy o) = (.ok yp, s')) :
    ∃ s₁ o', o'.Quiet ∧ (course.begin t0 y0).runFrom s = (.ok yp, s₁) ∧ s' = s₁.joinedBy o' := by
  simp only [Course.begin, runFrom_bind_ok] at ran ⊢
  obtain ⟨yp', _, derivative, _, _, size, _, _, opened, _, _, heard, same⟩ := ran
  obtain ⟨u₁, called, rfl⟩ := Unjoined.left (fun _ _ => rfl) derivative
  obtain ⟨sized, rfl⟩ := runFrom_lift_iff.mp size
  obtain ⟨u₂, watched, rfl⟩ := Unjoined.left (fun _ _ => rfl) opened
  cases same
  obtain ⟨u₃, v, o', v', start, split⟩ := Session.onObservers_left heard
  obtain ⟨quiet', kept, _⟩ := quiet.start start
  obtain ⟨told, rfl⟩ := split kept
  exact ⟨u₃, o', quiet', ⟨yp, u₁, called, (), u₁, runFrom_lift_iff.mpr ⟨sized, rfl⟩, (), u₂, watched, (), u₃, told, rfl⟩,
    rfl⟩

omit [Spacing α] in
theorem begin_joined {t0 : α} {y0 yp : State α} (ran : (course.begin t0 y0).runFrom s = (.ok yp, s'))
    (told : ∀ v, (Observer.start t0 y0 course.target).runFrom (o, v) = (.ok (), o', v)) :
    (course.begin t0 y0).runFrom (s.joinedBy o) = (.ok yp, s'.joinedBy o') := by
  simp only [Course.begin, runFrom_bind_ok] at ran ⊢
  obtain ⟨yp', u₁, called, _, _, size, _, u₂, watched, _, u₃, heard, same⟩ := ran
  obtain ⟨sized, rfl⟩ := runFrom_lift_iff.mp size
  cases same
  exact ⟨yp, _, Unjoined.joined (fun _ _ => rfl) called o, (), _, runFrom_lift_iff.mpr ⟨sized, rfl⟩, (), _,
    Unjoined.joined (fun _ _ => rfl) watched o, (), _, Session.onObservers_joined heard told, rfl⟩

theorem perform_left (quiet : o.Quiet) (unjoined : h.rest.Unjoined) {progress : Progress α}
    (ran : h.perform.runFrom (s.joinedBy o) = (.ok progress, s')) :
    ∃ s₁ o', o'.Quiet ∧ h.perform.runFrom s = (.ok progress, s₁) ∧ s' = s₁.joinedBy o' := by
  obtain ⟨_, _, delivered, rested⟩ := runFrom_bind_ok.mp ran
  rw [Session.runFrom_deliver] at delivered
  obtain ⟨u, v, o', v', heard, split⟩ := Session.onObservers_left (s := s.counted h.piece h.last) delivered
  obtain ⟨quiet', kept, _⟩ := quiet.accept heard
  obtain ⟨told, rfl⟩ := split kept
  obtain ⟨s₁, resumed, rfl⟩ := unjoined.left rested
  exact ⟨s₁, o', quiet', runFrom_bind_ok.mpr ⟨(), u, told, resumed⟩, rfl⟩

theorem perform_joined (unjoined : h.rest.Unjoined) {progress : Progress α}
    (ran : h.perform.runFrom s = (.ok progress, s'))
    (told : ∀ v, (Observer.accept h.piece h.last).runFrom (o, v) = (.ok (), o', v)) :
    h.perform.runFrom (s.joinedBy o) = (.ok progress, s'.joinedBy o') := by
  obtain ⟨_, u, delivered, rested⟩ := runFrom_bind_ok.mp ran
  rw [Session.runFrom_deliver] at delivered
  refine runFrom_bind_ok.mpr ⟨(), u.joinedBy o', ?_, unjoined.joined rested o'⟩
  rw [Session.runFrom_deliver]
  exact Session.onObservers_joined delivered told

/-- Passes that return with a quiet observer behind the others do the same without it. -/
theorem passes_left (quiet : o.Quiet) {left : Nat} {r : α × State α}
    (ran : (course.passes left phase).runFrom (s.joinedBy o) = (.ok r, s')) :
    ∃ s₁ o', (course.passes left phase).runFrom s = (.ok r, s₁) ∧ s' = s₁.joinedBy o' := by
  induction left generalizing phase s o with
  | zero => cases ran
  | succ left ih =>
    rcases approached : (course.approach phase).runFrom s with ⟨e | h, u⟩
    · rw [passes, pass_eq, bind_assoc, runFrom_bind, (course.unjoined_approach phase).joined approached o] at ran
      cases ran
    · rw [runFrom_passes left ((course.unjoined_approach phase).joined approached o)] at ran
      rw [runFrom_passes left approached]
      by_cases spent : course.budget ≤ u.accepted
      · rw [if_pos (show course.budget ≤ (u.joinedBy o).accepted from spent)] at ran
        cases ran
      · rw [if_neg (show ¬ course.budget ≤ (u.joinedBy o).accepted from spent)] at ran
        rw [if_neg spent]
        rcases performed : h.perform.runFrom (u.joinedBy o) with ⟨e | progress, u'⟩
        · rw [performed] at ran
          cases ran
        · obtain ⟨u₁, o', quiet', performed', rfl⟩ := perform_left quiet (unjoined_rest approached) performed
          rw [performed] at ran
          rw [performed']
          cases progress with
          | finished t y =>
            cases ran
            exact ⟨u₁, o', rfl, rfl⟩
          | onward next => exact ih quiet' ran

/-- Passes that return do the same with a quiet observer that can hear of all of their pieces. -/
theorem passes_joined (quiet : o.Quiet) {left : Nat} {r : α × State α} (whole : phase.Whole)
    (ran : (course.passes left phase).runFrom s = (.ok r, s')) {pieces : List (Window α × Bool)}
    (handed : s'.journal.pieces = s.journal.pieces ++ pieces) (hears : o.Hears pieces o') :
    (course.passes left phase).runFrom (s.joinedBy o) = (.ok r, s'.joinedBy o') := by
  induction left generalizing phase s o pieces with
  | zero => cases ran
  | succ left ih =>
    obtain ⟨h, s₁, progress, s₂, approached, fits, performed, ending⟩ := passes_ok whole ran
    obtain ⟨first, _, onward⟩ := fits.perform_ok performed
    have begun := (course.idle_approach phase _ _ _ approached).after.trans first
    obtain ⟨rest, later⟩ := after_of_ending (fun next goes => (onward next goes).2.2) ending
    -- The pieces of the journal are the one of this pass, with those of the later ones behind it.
    have split : pieces = (h.piece, h.last) :: rest := by
      have all := (begun.trans later).journal
      rw [handed] at all
      exact List.append_cancel_left all
    subst split
    cases hears with
    | @next _ _ _ _ o₁ _ v v' told hears =>
      obtain ⟨quiet', _, always⟩ := quiet.accept told
      have spent : ¬ course.budget ≤ s₁.accepted := by
        intro spent
        rw [runFrom_passes left approached, if_pos spent] at ran
        cases ran
      rw [runFrom_passes left ((course.unjoined_approach phase).joined approached o),
        if_neg (show ¬ course.budget ≤ (s₁.joinedBy o).accepted from spent),
        perform_joined (unjoined_rest approached) performed always]
      rcases ending with ⟨t, y, rfl, rfl, rfl⟩ | ⟨next, rfl, ran⟩
      · obtain rfl : rest = [] := List.self_eq_append_right.mp later.journal
        cases hears
        rfl
      · exact ih quiet' (onward next rfl).2.2 ran later.journal hears

end Course

namespace Engine

variable [Spacing α] {e e' : Engine ω α} {equation : Equation ω α} {t0 target t : α} {y0 y : State α} {w w' : ω}

/-- A run that returns with a quiet observer behind the others does the same without it. -/
theorem integrate_addObserver (quiet : o.Quiet)
    (ran : (integrate equation t0 y0 target).runFrom (e.addObserver o, w) = (.ok (t, y), e', w')) :
    ∃ others o', e'.observers = others ++ [o'] ∧ (integrate equation t0 y0 target).runFrom (e, w) =
      (.ok (t, y), { e' with observers := others }, w') := by
  obtain ⟨course, s₁, prepared, finished, rfl, rfl⟩ := integrate_ok ran
  have prepared' : e.prepare equation t0 y0 target = .ok course := prepared
  rw [runFrom_integrate prepared']
  rw [Course.run_eq] at finished ⊢
  obtain ⟨yp, _, opened, returned⟩ := runFrom_bind_ok.mp finished
  obtain ⟨u, o₁, quiet₁, begun, rfl⟩ := Course.begin_left
    (s := Session.start w (Monitor.create e.watches) e.observers) quiet opened
  obtain ⟨u₁, o₂, passed, rfl⟩ := Course.passes_left quiet₁ returned
  rw [runFrom_bind_ok.mpr ⟨yp, u, begun, passed⟩]
  exact ⟨u₁.observers, o₂, rfl, rfl⟩

/-- A run that returns does the same with a quiet observer that can hear of its start and of all of its pieces. -/
theorem integrate_joined (quiet : o.Quiet)
    (ran : (integrate equation t0 y0 target).runFrom (e, w) = (.ok (t, y), e', w'))
    (attends : o.Attends t0 y0 target e'.journal.pieces o') :
    (integrate equation t0 y0 target).runFrom (e.addObserver o, w) = (.ok (t, y), e'.addObserver o', w') := by
  obtain ⟨course, s₁, prepared, finished, rfl, rfl⟩ := integrate_ok ran
  have prepared' : (e.addObserver o).prepare equation t0 y0 target = .ok course := prepared
  rw [Course.run_eq] at finished
  obtain ⟨yp, u, begun, passed⟩ := runFrom_bind_ok.mp finished
  obtain ⟨o₁, v, v', told, hears⟩ := attends
  obtain ⟨quiet₁, _, always⟩ := quiet.start told
  rw [← target_of_prepare prepared] at always
  obtain ⟨_, empty, _⟩ := Course.begin_ok begun
  have whole : (Phase.stepping t0 y0 (some yp)).Whole := trivial
  have returned := Course.passes_joined quiet₁ whole passed (empty.symm ▸ rfl) hears
  have joined : (course.run t0 y0).runFrom (Session.start w (Monitor.create e.watches) (e.observers ++ [o])) =
      (.ok (t, y), s₁.joinedBy o') := by
    rw [Course.run_eq]
    exact runFrom_bind_ok.mpr ⟨yp, _, Course.begin_joined begun always, returned⟩
  refine (runFrom_integrate prepared' w).trans ?_
  dsimp only [addObserver]
  rw [joined]
  rfl

end Engine

end Trajectory
