import Mathlib.Tactic
import Trajectory.Proofs.Hearing

/-!
How an observer can fail.

An observer that hears of the pieces of a run in order is never asked for anything that a piece
cannot answer: the times that a sampler or a normalizer still waits for come behind the piece before
(`Observer.Along`), so that they are taken from a piece in which they lie, and a normalizer has room
for all of its grid points. What is left are failures of the code that an observer brings with it
(`Observer.Raises`, `accept_error`).
-/

namespace Trajectory

variable {ω : Type} {shape : Shape} {e : Error Rat}

variable [Spacing Rat] {forward : Bool} {step : Step Rat} {piece : Window Rat}

/-- A window that answers at all of its times, with states of one shape. -/
structure Window.Answers (forward : Bool) (shape : Shape) (w : Window Rat) : Prop where
  ahead : Precedes forward w.start w.stop
  answers : ∀ t, NotAfter forward w.start t → NotAfter forward t w.stop → ∃ y, w.stateAt t = .ok y ∧ y.shape = shape

theorem Window.Answers.yStop_shape (answering : piece.Answers forward shape) : piece.yStop.shape = shape := by
  obtain ⟨y, answered, sized⟩ := answering.answers piece.stop answering.ahead.notAfter .refl
  rw [← Window.stateAt_stop answering.ahead.ne answered]
  exact sized

/-- A sampler finds the times that lie in a piece. -/
theorem Sampler.take_ok (answering : piece.Answers forward shape) {ts : List Rat} (ahead : Ahead forward piece.start ts)
    (rows : List (Rat × State Rat)) : (take forward piece ts rows).1 = .ok () := by
  induction ts generalizing rows with
  | nil => rfl
  | cons t rest ih =>
    by_cases reach : NotAfter forward t piece.stop
    · obtain ⟨y, answered, _⟩ := answering.answers t (ahead.behind t List.mem_cons_self).notAfter reach
      rw [take, if_pos (reached_iff.mpr reach), answered]
      exact ih ⟨ahead.ordered.of_cons, fun r mem => ahead.behind r (List.mem_cons_of_mem t mem)⟩ _
    · rw [take, if_neg (reached_iff.not.mpr reach)]

namespace Normalizer

variable {n n' : Normalizer ω Rat} {last : Bool} {w w' : ω} {u : Normalizer ω Rat × ω}

/-- A callback of a normalizer fails on a state of some shape. -/
def Raises (shape : Shape) (e : Error Rat) (n : Normalizer ω Rat) : Prop :=
  ∃ t y last, y.shape = shape ∧ (n.callback t y last).Raises e

/-- With room for all grid points in a piece, only the callback can fail. -/
theorem report_error (answering : piece.Answers forward shape) (grid : n.Spaced forward)
    (ahead : Precedes forward piece.start n.next) {rounds : Nat}
    (room : ∀ k, (k ≠ 0 → NotAfter forward (n.gridPoint (n.count + k)) piece.stop) → k < rounds)
    (failed : (report piece last rounds).runFrom (n, w) = (.error e, u)) : n.Raises shape e := by
  induction rounds generalizing n w with
  | zero => exact absurd (room 0 fun moved => absurd rfl moved) (Nat.lt_irrefl 0)
  | succ rounds ih =>
    by_cases beyond : n.beyond n.next piece.stop = true
    · rw [report_beyond beyond] at failed
      cases failed
    · have reached : NotAfter forward n.next piece.stop := not_precedes.mp (grid.beyond_iff.not.mp beyond)
      obtain ⟨y, answered, sized⟩ := answering.answers n.next ahead.notAfter reached
      rw [report_round beyond, answered, Effect.runFrom_bind, Effect.runFrom_lift] at failed
      rcases Effect.runFrom_bind_error.mp failed with failed | ⟨_, ⟨m, v⟩, called, failed⟩
      · rw [Effect.runFrom_onSecond, Prod.mk.injEq] at failed
        exact ⟨n.next, y, _, sized, w, _, Prod.ext failed.1 rfl⟩
      · obtain ⟨_, _, same⟩ := Effect.runFrom_within_ok.mp called
        cases same
        have rest : (n.moved 1).Raises shape e := by
          refine ih (grid.moved 1) (ahead.trans grid.precedes_next) (fun k inside => ?_) failed
          refine Nat.lt_of_succ_lt_succ (room (k + 1) fun _ => ?_)
          by_cases first : k = 0
          · rw [first]
            exact reached
          · have place : n.count + 1 + k = n.count + (k + 1) := by omega
            rw [← place]
            exact inside first
        exact rest

/-- Only the callback of a normalizer can fail when it hears of a piece. -/
theorem accept_error (gaps : ∀ x : Rat, 0 ≤ Spacing.ulp x) (answering : piece.Answers forward shape)
    (part : piece.Part forward step) (grid : n.Spaced forward) (ahead : Precedes forward piece.start n.next)
    (failed : (accept piece last).runFrom (n, w) = (.error e, u)) : n.Raises shape e := by
  rw [runFrom_accept] at failed
  rcases Effect.runFrom_bind_error.mp failed with failed | ⟨_, ⟨m, v⟩, reported, failed⟩
  · exact report_error answering grid ahead (fun _ => grid.lt_rounds gaps piece) failed
  · obtain ⟨k, rfl, _⟩ := report_part gaps part grid ahead reported
    rw [runFrom_reportEnd] at failed
    split at failed
    · rw [Prod.mk.injEq] at failed
      exact ⟨piece.stop, piece.yStop, true, answering.yStop_shape, v, _, Prod.ext failed.1 rfl⟩
    · cases failed

theorem accept_along (gaps : ∀ x : Rat, 0 ≤ Spacing.ulp x) (part : piece.Part forward step) (grid : n.Spaced forward)
    (ahead : Precedes forward piece.start n.next) (heard : (accept piece last).runFrom (n, w) = (.ok (), n', w')) :
    n'.Spaced forward ∧ Precedes forward piece.stop n'.next ∧ n'.callback = n.callback := by
  obtain ⟨m, v, reported, rfl⟩ := accept_ok heard
  obtain ⟨k, rfl, ahead', _⟩ := report_part gaps part grid ahead reported
  rw [closed]
  split
  · exact ⟨⟨grid.spaced, grid.along⟩, ahead', rfl⟩
  · exact ⟨grid.moved k, ahead', rfl⟩

end Normalizer

/-- A tracker fails on a piece only where it compares a state of the run with its solution. -/
theorem Tracker.accept_error (answering : piece.Answers forward shape) {k : Tracker ω Rat} {last : Bool}
    {u : Tracker ω Rat} (failed : (Tracker.accept piece last).runFrom k = (.error e, u)) :
    ∃ t y, y.shape = shape ∧ k.deviation t y = .error e := by
  rw [Tracker.accept, Effect.runFrom_bind, Effect.runFrom_get] at failed
  rcases Effect.runFrom_bind_error.mp failed with failed | ⟨error, k', lifted, failed⟩
  · obtain ⟨failed, _⟩ := Effect.runFrom_lift_iff.mp failed
    obtain ⟨behind, before⟩ := between_midpoint answering.ahead
    obtain ⟨y, answered, sized⟩ := answering.answers _ behind.notAfter before.notAfter
    rw [midpointError, answered] at failed
    exact ⟨_, y, sized, failed⟩
  · obtain ⟨_, rfl⟩ := Effect.runFrom_lift_iff.mp lifted
    rw [Effect.runFrom_bind, Effect.runFrom_modify] at failed
    cases last with
    | false => cases failed
    | true =>
      rcases Effect.runFrom_bind_error.mp failed with failed | ⟨final, _, _, failed⟩
      · exact ⟨piece.stop, piece.yStop, answering.yStop_shape, (Effect.runFrom_lift_iff.mp failed).1⟩
      · rw [Effect.runFrom_modify] at failed
        cases failed

namespace Observer

variable {o o' : Observer ω Rat} {last : Bool} {w w' : ω} {u : Observer ω Rat × ω}

/-- The code that an observer brings with it fails on a state of some shape: the callback of a
normalizer, the comparison of a tracker with its solution, or anything else that its caller does. -/
def Raises (shape : Shape) (e : Error Rat) : Observer ω Rat → Prop
  | .recorder _ => False
  | .sampler _ => False
  | .normalizer n => n.Raises shape e
  | .tracker k => ∃ t y, y.shape = shape ∧ k.deviation t y = .error e
  | .custom onStart onPiece => (∃ t y target, (onStart t y target).Raises e) ∨
      ∃ piece last, (onPiece piece last).Raises e

/-- An observer that can be served along a run: the times of a sampler are in the order of the run,
and a normalizer has a spacing. -/
def Punctual (forward : Bool) (t0 : Rat) : Observer ω Rat → Prop
  | .sampler s => (t0 :: s.requested).Pairwise (NotAfter forward)
  | .normalizer n => 0 < n.spacing
  | _ => True

/-- What an observer still waits for comes behind a time. -/
def Along (forward : Bool) (a : Rat) : Observer ω Rat → Prop
  | .sampler s => s.forward = forward ∧ Sampler.Ahead forward a s.pending
  | .normalizer n => n.Spaced forward ∧ Precedes forward a n.next
  | _ => True

/-- Only the code that an observer brings with it can fail when it hears of a piece. -/
theorem accept_error (gaps : ∀ x : Rat, 0 ≤ Spacing.ulp x) (answering : piece.Answers forward shape)
    (part : piece.Part forward step) (along : o.Along forward piece.start)
    (failed : (Observer.accept piece last).runFrom (o, w) = (.error e, u)) : o.Raises shape e := by
  cases o with
  | recorder r => cases failed
  | sampler s =>
    obtain ⟨direction, ahead⟩ := along
    rw [runFrom_accept_sampler, Sampler.accept, direction, Prod.mk.injEq] at failed
    have taken := Sampler.take_ok answering ahead s.latestRows
    exact absurd (taken.symm.trans failed.1) (by simp)
  | normalizer n =>
    rw [runFrom_accept_normalizer, Prod.mk.injEq] at failed
    exact Normalizer.accept_error gaps answering part along.1 along.2 (Prod.ext failed.1 rfl)
  | tracker k =>
    rw [runFrom_accept_tracker, Prod.mk.injEq] at failed
    exact Tracker.accept_error answering (Prod.ext failed.1 rfl)
  | custom onStart onPiece =>
    rw [runFrom_accept_custom, Prod.mk.injEq] at failed
    exact Or.inr ⟨piece, last, w, _, Prod.ext failed.1 rfl⟩

/-- Behind a piece an observer waits for later times, with the code that it had before. -/
theorem accept_along (gaps : ∀ x : Rat, 0 ≤ Spacing.ulp x) (part : piece.Part forward step)
    (along : o.Along forward piece.start)
    (heard : (Observer.accept piece last).runFrom (o, w) = (.ok (), o', w')) :
    o'.Along forward piece.stop ∧ ∀ shape e, o'.Raises shape e → o.Raises shape e := by
  cases o with
  | recorder r =>
    cases heard
    exact ⟨trivial, fun _ _ => id⟩
  | sampler s =>
    obtain ⟨direction, ahead⟩ := along
    simp only [runFrom_accept_sampler, Prod.mk.injEq] at heard
    obtain ⟨taken, rfl, _⟩ := heard
    rw [Sampler.accept, direction] at taken
    obtain ⟨ahead', _⟩ := Sampler.take_part gaps part ahead (Prod.ext taken rfl)
    refine ⟨⟨direction, ?_⟩, fun _ _ => id⟩
    rw [Sampler.accept, direction]
    exact ahead'
  | normalizer n =>
    simp only [runFrom_accept_normalizer, Prod.mk.injEq] at heard
    obtain ⟨reported, rfl, _⟩ := heard
    obtain ⟨grid, ahead', same⟩ := Normalizer.accept_along gaps part along.1 along.2 (Prod.ext reported rfl)
    refine ⟨⟨grid, ahead'⟩, ?_⟩
    rintro shape e ⟨t, y, flag, sized, raised⟩
    rw [same] at raised
    exact ⟨t, y, flag, sized, raised⟩
  | tracker k =>
    simp only [runFrom_accept_tracker, Prod.mk.injEq] at heard
    obtain ⟨measured, rfl, _⟩ := heard
    obtain ⟨_, _, kept⟩ := Tracker.accept_ok (Prod.ext measured rfl)
    refine ⟨trivial, ?_⟩
    rintro shape e ⟨t, y, sized, raised⟩
    rw [Tracker.deviation, kept] at raised
    exact ⟨t, y, sized, raised⟩
  | custom onStart onPiece =>
    simp only [runFrom_accept_custom, Prod.mk.injEq] at heard
    obtain ⟨_, rfl, _⟩ := heard
    exact ⟨trivial, fun _ _ => id⟩

section

variable {t0 target : Rat} {y0 : State Rat}

omit [Spacing Rat]

/-- Only the code that an observer brings with it can fail when it hears of a start. -/
theorem start_error (failed : (Observer.start t0 y0 target).runFrom (o, w) = (.error e, u)) :
    o.Raises y0.shape e := by
  cases o with
  | recorder r => cases failed
  | sampler s => cases failed
  | normalizer n =>
    rw [runFrom_start_normalizer, Normalizer.runFrom_start, Prod.mk.injEq] at failed
    exact ⟨t0, y0, false, rfl, w, _, Prod.ext failed.1 rfl⟩
  | tracker k => cases failed
  | custom onStart onPiece =>
    rw [runFrom_start_custom, Prod.mk.injEq] at failed
    exact Or.inl ⟨t0, y0, target, w, _, Prod.ext failed.1 rfl⟩

/-- From the start of a run on an observer waits for times behind it. -/
theorem start_along (punctual : o.Punctual (decide (t0 ≤ target)) t0)
    (heard : (Observer.start t0 y0 target).runFrom (o, w) = (.ok (), o', w')) :
    o'.Along (decide (t0 ≤ target)) t0 ∧ ∀ shape e, o'.Raises shape e → o.Raises shape e := by
  cases o with
  | recorder r =>
    cases heard
    exact ⟨trivial, fun _ _ => id⟩
  | sampler s =>
    cases heard
    exact ⟨⟨rfl, Sampler.ahead_start punctual⟩, fun _ _ => id⟩
  | normalizer n =>
    simp only [runFrom_start_normalizer, Normalizer.runFrom_start, Prod.mk.injEq] at heard
    obtain ⟨_, rfl, _⟩ := heard
    have grid : (n.begun t0 target).Spaced (decide (t0 ≤ target)) := Normalizer.spaced_begun punctual
    exact ⟨⟨grid, grid.precedes_begun⟩, fun _ _ => id⟩
  | tracker k =>
    cases heard
    exact ⟨trivial, fun _ _ => id⟩
  | custom onStart onPiece =>
    simp only [runFrom_start_custom, Prod.mk.injEq] at heard
    obtain ⟨_, rfl, _⟩ := heard
    exact ⟨trivial, fun _ _ => id⟩

end

end Observer

end Trajectory
