import Mathlib.Tactic
import Trajectory.Observer.Normalizer
import Trajectory.Proofs.Part

/-!
What a normalizer reports of a step of which it hears part by part.

The reports on a part of a step are those on the step up to the end of the part (`report_part`), so
that a normalizer that has heard of some parts trails behind one that will hear of the whole step by
a number of grid points (`Normalizer.Trails`). At the end of the step the other one has room for all
of them (`Spaced.lt_rounds`) and catches up (`Trails.settle`).
-/

namespace Trajectory

variable {ω : Type}

variable [Spacing Rat] {forward : Bool} {step : Step Rat} {a : Rat} {piece : Window Rat}

namespace Normalizer

variable {n n' n₀ : Normalizer ω Rat} {w w' : ω}

/-- A normalizer whose grid leads along the run. -/
structure Spaced (forward : Bool) (n : Normalizer ω Rat) : Prop where
  spaced : 0 < n.spacing
  along : n.signedSpacing = runSign forward * n.spacing

/-- A normalizer whose grid leads along the run, with a callback that does not fail. -/
structure Ready (forward : Bool) (n : Normalizer ω Rat) : Prop extends Spaced forward n where
  quiet : ∀ t y last, (n.callback t y last).Unfailing

/-- A normalizer after so many further points of its grid. -/
def moved (n : Normalizer ω Rat) (k : Nat) : Normalizer ω Rat :=
  { n with count := n.count + k, lastTime := if k = 0 then n.lastTime else some (n.gridPoint (n.count + k)) }

def next (n : Normalizer ω Rat) : Rat := n.gridPoint (n.count + 1)

omit [Spacing Rat] in
theorem moved_moved (n : Normalizer ω Rat) (k l : Nat) : (n.moved k).moved l = n.moved (k + l) := by
  cases l with
  | zero => rfl
  | succ l => simp [moved, gridPoint, Nat.add_assoc]

omit [Spacing Rat] in
theorem Spaced.beyond_iff (grid : n.Spaced forward) {t bound : Rat} :
    n.beyond t bound = true ↔ Precedes forward bound t := by
  have spaced := grid.spaced
  cases forward with
  | true =>
    have positive : 0 < n.signedSpacing := by
      rw [grid.along, runSign_true]
      linarith
    simp [beyond, positive, Precedes]
  | false =>
    have negative : ¬ 0 < n.signedSpacing := by
      rw [grid.along, runSign_false]
      linarith
    simp [beyond, negative, Precedes]

omit [Spacing Rat] in
theorem Spaced.gridPoint_key (grid : n.Spaced forward) (k : Nat) :
    runSign forward * n.gridPoint k = runSign forward * n.t0 + k * n.spacing := by
  rw [gridPoint, grid.along, Scalar.ofNat_rat]
  linear_combination (k * n.spacing) * runSign_mul_self

omit [Spacing Rat] in
theorem Spaced.moved (grid : n.Spaced forward) (k : Nat) : (n.moved k).Spaced forward :=
  ⟨grid.spaced, grid.along⟩

omit [Spacing Rat] in
theorem Ready.moved (ready : n.Ready forward) (k : Nat) : (n.moved k).Ready forward :=
  ⟨ready.toSpaced.moved k, ready.quiet⟩

omit [Spacing Rat] in
theorem Spaced.precedes_next (grid : n.Spaced forward) : Precedes forward n.next (n.moved 1).next := by
  have place : (n.moved 1).next = n.gridPoint (n.count + 2) := rfl
  rw [place, next, precedes_iff_sign, grid.gridPoint_key, grid.gridPoint_key]
  push_cast
  linarith [grid.spaced]

theorem report_beyond (beyond : n.beyond n.next piece.stop = true) (last : Bool) (rounds : Nat) :
    (report piece last (rounds + 1)).runFrom (n, w) = (.ok (), n, w) := by
  rw [next] at beyond
  rw [report, Effect.runFrom_bind, Effect.runFrom_get]
  dsimp only
  rw [if_pos beyond, Effect.runFrom_pure]

theorem report_round (more : ¬ n.beyond n.next piece.stop = true) (last : Bool) (rounds : Nat) :
    (report piece last (rounds + 1)).runFrom (n, w) = (do
      let y ← piece.stateAt n.next
      Effect.onSecond (n.callback n.next y (last && n.next == piece.stop))
      report piece last rounds : Effect (Normalizer ω Rat × ω) Rat Unit).runFrom (n.moved 1, w) := by
  rw [next] at more
  rw [report, Effect.runFrom_bind, Effect.runFrom_get]
  dsimp only
  rw [if_neg more, Effect.runFrom_bind, Effect.runFrom_modify]
  rfl

/-- The reports on a part of a step are those on the step up to the end of the part. -/
theorem report_part (gaps : ∀ x : Rat, 0 ≤ Spacing.ulp x) (part : piece.Part forward step) {last : Bool}
    {rounds : Nat} (grid : n.Spaced forward) (ahead : Precedes forward piece.start n.next)
    (ran : (report piece last rounds).runFrom (n, w) = (.ok (), n', w')) :
    ∃ k, n' = n.moved k ∧ Precedes forward piece.stop n'.next ∧
      (k ≠ 0 → NotAfter forward (n.gridPoint (n.count + k)) piece.stop) ∧
      ((∀ t y last, (n.callback t y last).Unfailing) →
        ∀ flag fuel v, ∃ v', (report (.ofStep step) flag (k + fuel)).runFrom (n, v) =
          (report (.ofStep step) flag fuel).runFrom (n', v')) := by
  induction rounds generalizing n w with
  | zero =>
    rw [report, Effect.runFrom_throw] at ran
    cases ran
  | succ rounds ih =>
    by_cases beyond : n.beyond n.next piece.stop = true
    · rw [report_beyond beyond] at ran
      cases ran
      exact ⟨0, rfl, grid.beyond_iff.mp beyond, fun moved => absurd rfl moved,
        fun _ flag fuel v => ⟨v, by rw [Nat.zero_add]⟩⟩
    · rw [report_round beyond] at ran
      obtain ⟨y, _, lifted, ran⟩ := Effect.runFrom_bind_ok.mp ran
      obtain ⟨answered, rfl⟩ := Effect.runFrom_lift_iff.mp lifted
      obtain ⟨_, _, inner, ran⟩ := Effect.runFrom_bind_ok.mp ran
      obtain ⟨_, called, rfl⟩ := Effect.runFrom_within_ok.mp inner
      have reached : NotAfter forward n.next piece.stop := not_precedes.mp (grid.beyond_iff.not.mp beyond)
      obtain ⟨k, moved, next', reached', others⟩ := ih (grid.moved 1) (ahead.trans grid.precedes_next) ran
      rw [moved_moved, Nat.add_comm 1 k] at moved
      refine ⟨k + 1, moved, next', fun _ => ?_, fun quiet flag fuel v => ?_⟩
      · by_cases still : k = 0
        · rw [still]
          exact reached
        · have place : n.count + 1 + k = n.count + (k + 1) := by omega
          rw [← place]
          exact reached' still
      · have whole := part.stateAt gaps ahead reached answered
        have inside : ¬ n.beyond n.next (Window.ofStep step).stop = true :=
          grid.beyond_iff.not.mpr (not_precedes.mpr (reached.trans part.reached))
        obtain ⟨v₁, replied⟩ := quiet n.next y (flag && n.next == (Window.ofStep step).stop) v
        obtain ⟨v', rest⟩ := others quiet flag fuel v₁
        refine ⟨v', ?_⟩
        rw [Nat.add_right_comm, report_round inside, Effect.runFrom_bind, Effect.runFrom_lift, whole]
        dsimp only
        rw [Effect.runFrom_bind, Effect.runFrom_onSecond, replied]
        exact rest

/-- Whether a time is the last one reported. -/
def reportedAt (n : Normalizer ω Rat) (stop : Rat) : Bool :=
  match n.lastTime with
  | some t => t == stop
  | none => false

/-- A normalizer behind a piece, which has reported the end of the run if it is there. -/
def closed (n : Normalizer ω Rat) (stop : Rat) (last : Bool) : Normalizer ω Rat :=
  if last && !n.reportedAt stop then { n with lastTime := some stop } else n

def reportEnd (piece : Window Rat) (last : Bool) : Effect (Normalizer ω Rat × ω) Rat Unit := do
  let (n, _) ← get
  if last && !n.reportedAt piece.stop then
    modify fun (n, w) => ({ n with lastTime := some piece.stop }, w)
    Effect.onSecond (n.callback piece.stop piece.yStop true)

/-- The reports on a piece come first, and then the one on the end of the run. -/
theorem runFrom_accept (last : Bool) : (accept piece last).runFrom (n, w) =
    (report piece last (n.rounds piece) >>= fun _ => reportEnd piece last).runFrom (n, w) := by
  rw [Normalizer.accept, Effect.runFrom_bind, Effect.runFrom_get]
  dsimp only
  rw [Effect.runFrom_bind, Effect.runFrom_bind]
  rcases (report piece last (n.rounds piece)).runFrom (n, w) with ⟨_ | _, m, v⟩
  · rfl
  · dsimp only
    rw [reportEnd, Effect.runFrom_bind, Effect.runFrom_bind, Effect.runFrom_get]
    dsimp only
    cases time : m.lastTime with
    | none => simp only [reportedAt, time]
    | some t => simp only [reportedAt, time]

omit [Spacing Rat] in
theorem runFrom_reportEnd (last : Bool) : (reportEnd piece last).runFrom (n, w) =
    if last && !n.reportedAt piece.stop then
      (((n.callback piece.stop piece.yStop true).runFrom w).1, { n with lastTime := some piece.stop },
        ((n.callback piece.stop piece.yStop true).runFrom w).2)
    else (.ok (), n, w) := by
  rw [reportEnd, Effect.runFrom_bind, Effect.runFrom_get]
  dsimp only
  split
  · rw [Effect.runFrom_bind, Effect.runFrom_modify]
    rfl
  · rfl

theorem accept_ok {last : Bool} (heard : (accept piece last).runFrom (n, w) = (.ok (), n', w')) :
    ∃ m v, (report piece last (n.rounds piece)).runFrom (n, w) = (.ok (), m, v) ∧ n' = m.closed piece.stop last := by
  rw [runFrom_accept] at heard
  obtain ⟨_, ⟨m, v⟩, reported, heard⟩ := Effect.runFrom_bind_ok.mp heard
  refine ⟨m, v, reported, ?_⟩
  rw [runFrom_reportEnd] at heard
  rw [closed]
  split at heard
  · rename_i closes
    rw [if_pos closes, ← (Prod.mk.inj (Prod.mk.inj heard).2).1]
  · rename_i remains
    cases heard
    rw [if_neg remains]

theorem accept_of_report {last : Bool} {v : ω} (quiet : ∀ t y last, (n'.callback t y last).Unfailing)
    (reported : (report piece last (n.rounds piece)).runFrom (n, w) = (.ok (), n', v)) :
    ∃ w', (accept piece last).runFrom (n, w) = (.ok (), n'.closed piece.stop last, w') := by
  rw [runFrom_accept, Effect.runFrom_bind, reported]
  dsimp only
  rw [runFrom_reportEnd, closed]
  split
  · obtain ⟨w', called⟩ := quiet piece.stop piece.yStop true v
    exact ⟨w', by rw [called]⟩
  · exact ⟨v, rfl⟩

/-- A normalizer that has heard of a step up to a time, and one that has not heard of it. -/
structure Trails (forward : Bool) (step : Step Rat) (a : Rat) (n n₀ : Normalizer ω Rat) : Prop where
  ready : n₀.Ready forward
  ahead : Precedes forward a n.next
  left : ∃ k, n = n₀.moved k ∧ (k ≠ 0 → NotAfter forward (n₀.gridPoint (n₀.count + k)) a) ∧
    ∀ flag fuel v, ∃ v', (report (.ofStep step) flag (k + fuel)).runFrom (n₀, v) =
      (report (.ofStep step) flag fuel).runFrom (n, v')

/-- Every part of the step keeps a normalizer trailing. -/
theorem Trails.report (gaps : ∀ x : Rat, 0 ≤ Spacing.ulp x) (trails : n.Trails forward step a n₀)
    (part : piece.Part forward step) (start : piece.start = a) {last : Bool} {rounds : Nat}
    (ran : (report piece last rounds).runFrom (n, w) = (.ok (), n', w')) : n'.Trails forward step piece.stop n₀ := by
  obtain ⟨k, moved, reached, left⟩ := trails.left
  have ready : n.Ready forward := moved ▸ trails.ready.moved k
  obtain ⟨l, moved', ahead, reached', others⟩ := report_part gaps part ready.toSpaced (start ▸ trails.ahead) ran
  have left' := others ready.quiet
  refine ⟨trails.ready, ahead, k + l, ?_, fun several => ?_, fun flag fuel v => ?_⟩
  · rw [moved', moved, moved_moved]
  · by_cases still : l = 0
    · rw [still, Nat.add_zero] at several ⊢
      exact (reached several).trans (start ▸ part.ahead.notAfter)
    · have place : n.gridPoint (n.count + l) = n₀.gridPoint (n₀.count + (k + l)) := by
        rw [moved, ← Nat.add_assoc]
        rfl
      rw [← place]
      exact reached' still
  · obtain ⟨v₁, first⟩ := left flag (l + fuel) v
    obtain ⟨v', second⟩ := left' flag fuel v₁
    exact ⟨v', by rw [Nat.add_assoc, first, second]⟩

/-- The bound on the number of reports leaves room for all grid points up to the end of a window. -/
theorem Spaced.lt_rounds (gaps : ∀ x : Rat, 0 ≤ Spacing.ulp x) (grid : n.Spaced forward) (piece : Window Rat) {k : Nat}
    (reached : k ≠ 0 → NotAfter forward (n.gridPoint (n.count + k)) piece.stop) : k < n.rounds piece := by
  have count : n.rounds piece = ((Scalar.abs (piece.stop - n.t0) + piece.slack) / n.spacing).ceil.toNat + 2 := rfl
  by_cases start : k = 0
  · rw [start, count]
    exact Nat.succ_pos _
  · have key := notAfter_iff_sign.mp (reached start)
    rw [grid.gridPoint_key] at key
    push_cast at key
    have way : runSign forward * piece.stop - runSign forward * n.t0 ≤ |piece.stop - n.t0| := by
      cases forward
      · rw [runSign_false, abs_sub_comm]
        linarith [le_abs_self (n.t0 - piece.stop)]
      · rw [runSign_true]
        linarith [le_abs_self (piece.stop - n.t0)]
    have slack := Window.slack_nonneg gaps piece
    have earlier : 0 ≤ (n.count : Rat) * n.spacing := mul_nonneg (Nat.cast_nonneg _) grid.spaced.le
    have points : (k : Rat) ≤ (Scalar.abs (piece.stop - n.t0) + piece.slack) / n.spacing := by
      rw [le_div_iff₀ grid.spaced, Scalar.abs_rat]
      linarith
    have whole := points.trans Rat.le_ceil
    have bound : (k : Int) ≤ ((Scalar.abs (piece.stop - n.t0) + piece.slack) / n.spacing).ceil := by
      exact_mod_cast whole
    omega

theorem Trails.closed (trails : n.Trails forward step a n₀) (stop : Rat) (last : Bool) :
    (n.closed stop last).Ready forward ∧ Precedes forward a (n.closed stop last).next := by
  obtain ⟨k, moved, _⟩ := trails.left
  have ready : n.Ready forward := moved ▸ trails.ready.moved k
  rw [Normalizer.closed]
  split
  · exact ⟨⟨⟨ready.spaced, ready.along⟩, ready.quiet⟩, trails.ahead⟩
  · exact ⟨ready, trails.ahead⟩

/-- At the end of the step the other normalizer catches up. -/
theorem Trails.settle (gaps : ∀ x : Rat, 0 ≤ Spacing.ulp x) (trails : n.Trails forward step step.tNext n₀)
    (last : Bool) (v : ω) :
    ∃ v', (accept (.ofStep step) last).runFrom (n₀, v) = (.ok (), n.closed step.tNext last, v') := by
  obtain ⟨k, moved, reached, left⟩ := trails.left
  obtain ⟨fuel, enough⟩ := Nat.exists_eq_add_of_lt (trails.ready.lt_rounds gaps (.ofStep step) reached)
  have ready : n.Ready forward := moved ▸ trails.ready.moved k
  obtain ⟨v₁, reports⟩ := left last (fuel + 1) v
  have beyond : n.beyond n.next (Window.ofStep step).stop = true := ready.beyond_iff.mpr trails.ahead
  rw [report_beyond beyond, ← Nat.add_assoc, ← enough] at reports
  exact accept_of_report ready.quiet reports

def begun (n : Normalizer ω Rat) (t0 target : Rat) : Normalizer ω Rat :=
  { n with t0 := t0, count := 0, signedSpacing := if t0 ≤ target then n.spacing else -n.spacing, lastTime := some t0 }

omit [Spacing Rat] in
theorem runFrom_start {t0 target : Rat} {y0 : State Rat} : (Normalizer.start t0 y0 target).runFrom (n, w) =
    (((n.callback t0 y0 false).runFrom w).1, n.begun t0 target, ((n.callback t0 y0 false).runFrom w).2) := by
  rw [Normalizer.start, Effect.runFrom_bind, Effect.runFrom_modify]
  rfl

omit [Spacing Rat] in
theorem spaced_begun {t0 target : Rat} (spaced : 0 < n.spacing) :
    (n.begun t0 target).Spaced (decide (t0 ≤ target)) := by
  refine ⟨spaced, ?_⟩
  by_cases later : t0 ≤ target
  · rw [decide_eq_true later, runSign_true, one_mul]
    exact if_pos later
  · rw [decide_eq_false later, runSign_false, neg_one_mul]
    exact if_neg later

omit [Spacing Rat] in
theorem ready_begun {t0 target : Rat} (spaced : 0 < n.spacing) (quiet : ∀ t y last, (n.callback t y last).Unfailing) :
    (n.begun t0 target).Ready (decide (t0 ≤ target)) :=
  ⟨spaced_begun spaced, quiet⟩

omit [Spacing Rat] in
theorem Spaced.precedes_begun {t0 target : Rat} (grid : (n.begun t0 target).Spaced forward) :
    Precedes forward t0 (n.begun t0 target).next := by
  rw [precedes_iff_sign, next, grid.gridPoint_key]
  have spaced := grid.spaced
  change _ < runSign forward * t0 + ((0 + 1 : Nat) : Rat) * n.spacing
  change 0 < n.spacing at spaced
  push_cast
  linarith

end Normalizer

end Trajectory
