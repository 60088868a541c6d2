import Mathlib.Tactic
import Trajectory.Observer
import Trajectory.Proofs.Observer.Normalizer
import Trajectory.Proofs.Observer.Sampler
import Trajectory.Proofs.Observer.Tracker

/-!
What observers make of a step of which they hear part by part.

An observer that has heard of the parts of a step up to a time trails behind one that will hear of
the whole step at once: what the second one still has to do is what the first one has done and what
it still has to do. Every part keeps this (`Observer.Trails.accept`), and behind the last one both
are even again (`Observer.Trails.settle`): samplers hold the same samples, normalizers have reported
the same points of their grid.
-/

namespace Trajectory

variable {ω : Type}

variable [Spacing Rat] {forward : Bool} {step : Step Rat} {a : Rat} {piece : Window Rat}

namespace Observer

variable {o o' o₀ : Observer ω Rat} {w w' : ω}

/-- An observer that can follow a run from a time: the code of its caller does not fail, the times
of a sampler are in the order of the run, and the solution of a tracker is known. -/
def Obliging (forward : Bool) (t0 : Rat) : Observer ω Rat → Prop
  | .recorder _ => True
  | .sampler s => (t0 :: s.requested).Pairwise (NotAfter forward)
  | .normalizer n => 0 < n.spacing ∧ ∀ t y last, (n.callback t y last).Unfailing
  | .tracker k => k.problem.Known
  | .custom onStart onPiece => (∀ t y target, (onStart t y target).Unfailing) ∧
      ∀ piece last, (onPiece piece last).Unfailing

/-- An observer that has heard of a step up to a time, and one that has not heard of it. -/
inductive Trails (forward : Bool) (step : Step Rat) (a : Rat) : Observer ω Rat → Observer ω Rat → Prop where
  | recorder {r r₀} : Trails forward step a (.recorder r) (.recorder r₀)
  | sampler {s s₀} (trails : s.Trails forward step a s₀) : Trails forward step a (.sampler s) (.sampler s₀)
  | normalizer {n n₀} (trails : n.Trails forward step a n₀) : Trails forward step a (.normalizer n) (.normalizer n₀)
  | tracker {k k₀} (known : k.problem.Known) (problem : k₀.problem = k.problem) :
      Trails forward step a (.tracker k) (.tracker k₀)
  | custom {onStart onPiece} (quiet : ∀ piece last, (onPiece piece last).Unfailing) :
      Trails forward step a (.custom onStart onPiece) (.custom onStart onPiece)

/-- Two observers that have heard of a run up to a time, in different pieces. -/
inductive Even (forward : Bool) (a : Rat) : Observer ω Rat → Observer ω Rat → Prop where
  | recorder {r r₀} : Even forward a (.recorder r) (.recorder r₀)
  | sampler {s} (direction : s.forward = forward) (ahead : Sampler.Ahead forward a s.pending) :
      Even forward a (.sampler s) (.sampler s)
  | normalizer {n} (ready : n.Ready forward) (ahead : Precedes forward a n.next) :
      Even forward a (.normalizer n) (.normalizer n)
  | tracker {k k₀} (known : k.problem.Known) (problem : k₀.problem = k.problem) :
      Even forward a (.tracker k) (.tracker k₀)
  | custom {onStart onPiece} (quiet : ∀ piece last, (onPiece piece last).Unfailing) :
      Even forward a (.custom onStart onPiece) (.custom onStart onPiece)

section

variable (piece : Window Rat) (last : Bool) (w : ω)

theorem runFrom_accept_normalizer (n : Normalizer ω Rat) : (Observer.accept piece last).runFrom (.normalizer n, w) =
    (((Normalizer.accept piece last).runFrom (n, w)).1, .normalizer ((Normalizer.accept piece last).runFrom (n, w)).2.1,
      ((Normalizer.accept piece last).runFrom (n, w)).2.2) := by rfl

theorem runFrom_accept_tracker (k : Tracker ω Rat) : (Observer.accept piece last).runFrom (.tracker k, w) =
    (((Tracker.accept piece last).runFrom k).1, .tracker ((Tracker.accept piece last).runFrom k).2, w) := by rfl

theorem runFrom_accept_custom (onStart : Rat → State Rat → Rat → Effect ω Rat Unit)
    (onPiece : Window Rat → Bool → Effect ω Rat Unit) :
    (Observer.accept piece last).runFrom (.custom onStart onPiece, w) =
      (((onPiece piece last).runFrom w).1, .custom onStart onPiece, ((onPiece piece last).runFrom w).2) := by rfl

end

/-- Observers that are even are so at the start of the next step. -/
theorem Even.trails (even : o.Even forward a o₀) (step : Step Rat) : o.Trails forward step a o₀ := by
  cases even with
  | recorder => exact .recorder
  | sampler direction ahead => exact .sampler ⟨rfl, direction, direction, ahead, rfl⟩
  | normalizer ready ahead =>
    refine .normalizer ⟨ready, ahead, 0, rfl, fun moved => absurd rfl moved, fun flag fuel v => ⟨v, ?_⟩⟩
    rw [Nat.zero_add]
  | tracker known problem => exact .tracker known problem
  | custom quiet => exact .custom quiet

/-- Every part of the step but the last one keeps an observer trailing. -/
theorem Trails.accept (gaps : ∀ x : Rat, 0 ≤ Spacing.ulp x) (trails : o.Trails forward step a o₀)
    (part : piece.Part forward step) (start : piece.start = a)
    (heard : (Observer.accept piece false).runFrom (o, w) = (.ok (), o', w')) :
    o'.Trails forward step piece.stop o₀ := by
  cases trails with
  | recorder =>
    cases heard
    exact .recorder
  | sampler trails =>
    simp only [runFrom_accept_sampler, Prod.mk.injEq] at heard
    obtain ⟨taken, rfl, _⟩ := heard
    exact .sampler (trails.accept gaps part start (Prod.ext taken rfl))
  | normalizer trails =>
    simp only [runFrom_accept_normalizer, Prod.mk.injEq] at heard
    obtain ⟨reported, rfl, _⟩ := heard
    obtain ⟨m, _, reports, same⟩ := Normalizer.accept_ok (Prod.ext reported rfl)
    rw [same]
    exact .normalizer (trails.report gaps part start reports)
  | tracker known problem =>
    simp only [runFrom_accept_tracker, Prod.mk.injEq] at heard
    obtain ⟨measured, rfl, _⟩ := heard
    obtain ⟨_, _, kept⟩ := Tracker.accept_ok (Prod.ext measured rfl)
    exact .tracker (kept ▸ known) (problem.trans kept.symm)
  | custom quiet =>
    simp only [runFrom_accept_custom, Prod.mk.injEq] at heard
    obtain ⟨_, rfl, _⟩ := heard
    exact .custom quiet

/-- Behind the last part of the step the other observer catches up. -/
theorem Trails.settle (gaps : ∀ x : Rat, 0 ≤ Spacing.ulp x) (trails : o.Trails forward step a o₀)
    (part : piece.Part forward step) (start : piece.start = a) (stop : piece.stop = step.tNext)
    (ahead : Precedes forward step.t step.tNext) {last : Bool}
    (heard : (Observer.accept piece last).runFrom (o, w) = (.ok (), o', w')) (v : ω) :
    ∃ o₀' v', (Observer.accept (.ofStep step) last).runFrom (o₀, v) = (.ok (), o₀', v') ∧
      o'.Even forward step.tNext o₀' := by
  cases trails with
  | recorder =>
    cases heard
    exact ⟨_, _, rfl, .recorder⟩
  | @sampler s s₀ trails =>
    simp only [runFrom_accept_sampler, Prod.mk.injEq] at heard
    obtain ⟨taken, rfl, _⟩ := heard
    have trails' := trails.accept gaps part start (Prod.ext taken rfl)
    rw [stop] at trails'
    exact ⟨_, v, by rw [runFrom_accept_sampler, trails'.settle], .sampler trails'.direction trails'.ahead⟩
  | @normalizer n n₀ trails =>
    simp only [runFrom_accept_normalizer, Prod.mk.injEq] at heard
    obtain ⟨reported, rfl, _⟩ := heard
    obtain ⟨m, _, reports, same⟩ := Normalizer.accept_ok (Prod.ext reported rfl)
    have trails' := trails.report gaps part start reports
    rw [stop] at trails' same
    obtain ⟨v', accepted⟩ := trails'.settle gaps last v
    obtain ⟨ready, ahead'⟩ := trails'.closed step.tNext last
    refine ⟨_, v', by rw [runFrom_accept_normalizer, accepted], ?_⟩
    rw [same]
    exact .normalizer ready ahead'
  | @tracker k k₀ known problem =>
    simp only [runFrom_accept_tracker, Prod.mk.injEq] at heard
    obtain ⟨measured, rfl, _⟩ := heard
    obtain ⟨_, _, kept⟩ := Tracker.accept_ok (Prod.ext measured rfl)
    obtain ⟨k₀', accepted, problem'⟩ := Tracker.settle gaps part stop ahead known problem (Prod.ext measured rfl)
    exact ⟨.tracker k₀', v, by rw [runFrom_accept_tracker, accepted], .tracker (kept ▸ known) problem'⟩
  | custom quiet =>
    simp only [runFrom_accept_custom, Prod.mk.injEq] at heard
    obtain ⟨_, rfl, _⟩ := heard
    obtain ⟨v', heard'⟩ := quiet (.ofStep step) last v
    exact ⟨_, v', by rw [runFrom_accept_custom, heard'], .custom quiet⟩

section

omit [Spacing Rat]

variable (t0 target : Rat) (y0 : State Rat) (w : ω)

theorem runFrom_start_normalizer (n : Normalizer ω Rat) :
    (Observer.start t0 y0 target).runFrom (.normalizer n, w) =
      (((Normalizer.start t0 y0 target).runFrom (n, w)).1,
        .normalizer ((Normalizer.start t0 y0 target).runFrom (n, w)).2.1,
        ((Normalizer.start t0 y0 target).runFrom (n, w)).2.2) := by rfl

theorem runFrom_start_custom (onStart : Rat → State Rat → Rat → Effect ω Rat Unit)
    (onPiece : Window Rat → Bool → Effect ω Rat Unit) :
    (Observer.start t0 y0 target).runFrom (.custom onStart onPiece, w) =
      (((onStart t0 y0 target).runFrom w).1, .custom onStart onPiece, ((onStart t0 y0 target).runFrom w).2) := by rfl

end

omit [Spacing Rat] in
/-- Observers that can follow a run are even at its start. -/
theorem even_start {t0 target : Rat} {y0 : State Rat} (obliging : o.Obliging (decide (t0 ≤ target)) t0)
    (heard : (Observer.start t0 y0 target).runFrom (o, w) = (.ok (), o', w')) (v : ω) :
    ∃ o₀' v', (Observer.start t0 y0 target).runFrom (o, v) = (.ok (), o₀', v') ∧
      o'.Even (decide (t0 ≤ target)) t0 o₀' := by
  cases o with
  | recorder r =>
    cases heard
    exact ⟨_, _, rfl, .recorder⟩
  | sampler s =>
    cases heard
    exact ⟨_, _, rfl, .sampler rfl (Sampler.ahead_start obliging)⟩
  | normalizer n =>
    obtain ⟨spaced, quiet⟩ := obliging
    simp only [runFrom_start_normalizer, Normalizer.runFrom_start, Prod.mk.injEq] at heard
    obtain ⟨_, rfl, _⟩ := heard
    obtain ⟨v', called⟩ := quiet t0 y0 false v
    have ready : (n.begun t0 target).Ready (decide (t0 ≤ target)) := Normalizer.ready_begun spaced quiet
    refine ⟨_, v', ?_, .normalizer ready ready.precedes_begun⟩
    rw [runFrom_start_normalizer, Normalizer.runFrom_start, called]
  | tracker k =>
    cases heard
    exact ⟨_, _, rfl, .tracker obliging rfl⟩
  | custom onStart onPiece =>
    simp only [runFrom_start_custom, Prod.mk.injEq] at heard
    obtain ⟨_, rfl, _⟩ := heard
    obtain ⟨v', called⟩ := obliging.1 t0 y0 target v
    exact ⟨_, v', by rw [runFrom_start_custom, called], .custom obliging.2⟩

omit [Spacing Rat] in
/-- Among observers that are even the samplers are the same. -/
theorem Even.samplers {os os₀ : List (Observer ω Rat)} (even : List.Forall₂ (Even forward a) os os₀) (i : Nat)
    (s : Sampler Rat) : os[i]? = some (.sampler s) ↔ os₀[i]? = some (.sampler s) := by
  constructor
  · intro at_
    obtain ⟨o₀, at₀, even⟩ := forall₂_getElem? even.flip at_
    cases even
    exact at₀
  · intro at_
    obtain ⟨o, at₀, even⟩ := forall₂_getElem? even at_
    cases even
    exact at₀

end Observer

end Trajectory
