import Mathlib.Order.Bounds.Basic
import Mathlib.Tactic
import Trajectory.Proofs.Safety
import Trajectory.Proofs.Transparency

/-!
The steps of a run without handlers.

A number of steps suffices for a distance if it comes within the slack of it (`Suffices`), and a run takes the least
number that does. Its steps begin and end on a grid: the multiples of the step size from the start on, with the target
in the place of the last one (`gridPoint`). Whether a step is the last one is decided at its start, and at a grid point
the decision is that the next number of steps suffices (`Course.isLast_grid`), so that every move keeps a run on its
grid (`gridded_move`). `integrate_grid` says so of every run, and that it returns unless the budget is smaller than
the number of steps.
-/

namespace Trajectory

open Session

variable {ω : Type}

/-- So many steps of a size come within the slack of a distance, or farther. -/
def Suffices (distance size : Rat) (n : Nat) : Prop := 1 ≤ n ∧ distance - lastStepSlack * size ≤ n * size

/-- The end of the `k`-th of `N` steps. -/
def gridPoint (t0 h target : Rat) (N k : Nat) : Rat := if k < N then t0 + k * h else target

/-- The start and the end of a step on a grid, with word whether it is the last of `N`. -/
def gridStep (t0 h target : Rat) (N k : Nat) : Rat × Rat × Bool :=
  (gridPoint t0 h target N k, gridPoint t0 h target N (k + 1), decide (k + 1 = N))

/-- The starts and the ends of the accepted pieces, with their flags. -/
def Journal.spans (j : Journal Rat) : List (Rat × Rat × Bool) :=
  j.pieces.map fun (piece, last) => (piece.start, piece.stop, last)

theorem Journal.spans_append (j j' : Journal Rat) : spans (j ++ j') = j.spans ++ spans j' := by
  rw [spans, Journal.pieces_append, List.map_append, spans, spans]

section

variable {distance size : Rat} {N : Nat}

/-- Some number of steps suffices for any distance, and hence a least one. -/
theorem exists_least_suffices (distance : Rat) (positive : 0 < size) :
    ∃ N, IsLeast {n | Suffices distance size n} N := by
  obtain ⟨n, enough⟩ := exists_nat_ge (distance / size)
  have reached : distance ≤ n * size := (div_le_iff₀ positive).mp enough
  have slack : 0 ≤ lastStepSlack * size := mul_nonneg (by norm_num [lastStepSlack]) positive.le
  have nonempty : {n | Suffices distance size n}.Nonempty := by
    refine ⟨n + 1, Nat.le_add_left 1 n, ?_⟩
    push_cast
    linarith
  exact ⟨_, Nat.sInf_mem nonempty, fun _ mem => Nat.sInf_le mem⟩

/-- The last of several steps is longer than the slack, and longer than a full step by no more than that. -/
theorem lastStep_bounds (least : IsLeast {n | Suffices distance size n} N) (several : 2 ≤ N) :
    lastStepSlack * size < distance - (N - 1 : Nat) * size ∧
      distance - (N - 1 : Nat) * size ≤ (1 + lastStepSlack) * size := by
  obtain ⟨⟨_, enough⟩, minimal⟩ := least
  have before : ¬ Suffices distance size (N - 1) := fun suffices_ => by
    have bound : N ≤ N - 1 := minimal suffices_
    omega
  have short : ¬ distance - lastStepSlack * size ≤ (N - 1 : Nat) * size := fun reached =>
    before ⟨by omega, reached⟩
  have count : (N : Rat) = (N - 1 : Nat) + 1 := by
    rw [← Nat.cast_succ]
    exact congrArg Nat.cast (by omega)
  rw [count] at enough
  constructor <;> linarith

end

section

variable {course : Course ω Rat} {watches : List (Handler ω Rat × Settings Rat)} {t0 : Rat} {N k : Nat}
  {s s' : Session ω Rat}

/-- The number of steps that a course takes from a time to its target. -/
def Course.Takes (course : Course ω Rat) (t0 : Rat) (N : Nat) : Prop :=
  IsLeast {n | Suffices |course.target - t0| |course.h| n} N

theorem Course.Directed.abs_size (directed : course.Directed watches t0) :
    |course.h| = runSign course.forward * course.h := by
  have ahead : NotAfter course.forward 0 course.h := by
    rw [notAfter_iff_sign, mul_zero]
    exact directed.size.le
  simpa using ahead.abs_sub

theorem Course.isLast_iff (directed : course.Directed watches t0) (k : Nat) :
    course.isLast (t0 + k * course.h) = true ↔ Suffices |course.target - t0| |course.h| (k + 1) := by
  rw [isLast, decide_eq_true_eq, Suffices, Scalar.abs_rat, directed.ahead.notAfter.abs_sub, directed.abs_size]
  have count : ((k + 1 : Nat) : Rat) = k + 1 := Nat.cast_succ k
  rw [count]
  constructor
  · exact fun reached => ⟨Nat.le_add_left 1 k, by linarith⟩
  · rintro ⟨_, reached⟩
    linarith

/-- Of the steps of a grid the one with the last number is decided to be the last one. -/
theorem Course.isLast_grid (directed : course.Directed watches t0) (takes : course.Takes t0 N) (below : k < N) :
    course.isLast (t0 + k * course.h) = decide (k + 1 = N) := by
  rw [Bool.eq_iff_iff, Course.isLast_iff directed, decide_eq_true_eq]
  constructor
  · intro enough
    have bound : N ≤ k + 1 := takes.2 enough
    omega
  · rintro rfl
    exact takes.1

/-- No step of a grid begins at the target or behind it. -/
theorem Course.precedes_grid (directed : course.Directed watches t0) (takes : course.Takes t0 N) (below : k < N) :
    Precedes course.forward (t0 + k * course.h) course.target := by
  cases k with
  | zero => simpa using directed.ahead
  | succ k =>
    have more : course.isLast (t0 + k * course.h) = false := by
      rw [Course.isLast_grid directed takes (by omega), decide_eq_false_iff_not]
      omega
    have next := Course.precedes_of_not_last more
    push_cast
    rwa [add_one_mul, ← add_assoc]

/-- The last of several steps of a grid is neither a sliver nor much longer than the others. -/
theorem Course.lastStep_grid (directed : course.Directed watches t0) (takes : course.Takes t0 N) (several : 2 ≤ N) :
    let length := |course.target - (t0 + (N - 1 : Nat) * course.h)|
    lastStepSlack * |course.h| < length ∧ length ≤ (1 + lastStepSlack) * |course.h| := by
  have rest : |course.target - (t0 + (N - 1 : Nat) * course.h)| =
      |course.target - t0| - (N - 1 : Nat) * |course.h| := by
    rw [(Course.precedes_grid directed takes (by omega)).notAfter.abs_sub, directed.ahead.notAfter.abs_sub,
      directed.abs_size]
    ring
  rw [rest]
  exact lastStep_bounds takes several

/-- So many steps of a grid have been accepted, and nothing else. -/
structure Session.OnGrid (course : Course ω Rat) (t0 : Rat) (N k : Nat) (s : Session ω Rat) : Prop where
  count : s.accepted = k
  affordable : k ≤ course.budget
  spans : s.journal.spans = (List.range k).map (gridStep t0 course.h course.target N)

theorem Session.OnGrid.congr (grid : s.OnGrid course t0 N k) (account : s.SameAccount s') :
    s'.OnGrid course t0 N k :=
  ⟨account.2.trans grid.count, grid.affordable, account.journal ▸ grid.spans⟩

/-- A whole step of a grid. -/
structure Leg.OnGrid (course : Course ω Rat) (t0 : Rat) (N k : Nat) (leg : Leg Rat) (window : Window Rat) : Prop where
  below : k < N
  last : leg.last = decide (k + 1 = N)
  start : window.start = gridPoint t0 course.h course.target N k
  stop : window.stop = gridPoint t0 course.h course.target N (k + 1)

/-- Where a run without handlers is at a stage: at a point of its grid, or in a whole step of it. -/
def Stage.Gridded (course : Course ω Rat) (t0 : Rat) (N : Nat) (s : Session ω Rat) : Stage ω → Prop
  | opening t _ => t = t0 ∧ s.OnGrid course t0 N 0
  | stepping t _ _ => ∃ k < N, t = t0 + k * course.h ∧ s.OnGrid course t0 N k
  | scanning leg window => ∃ k, leg.OnGrid course t0 N k window ∧ s.OnGrid course t0 N k
  | decided cut last verdict => verdict = .carryOn ∧ cut.piece = cut.window ∧ last = cut.leg.last ∧
      ∃ k, cut.leg.OnGrid course t0 N k cut.window ∧ s.OnGrid course t0 N k
  | accepted cut _ verdict => verdict = .carryOn ∧ cut.piece = cut.window ∧
      ∃ k, cut.leg.OnGrid course t0 N k cut.window ∧ s.OnGrid course t0 N (k + 1)
  | told cut verdict => verdict = .carryOn ∧ cut.piece = cut.window ∧
      ∃ k, cut.leg.OnGrid course t0 N k cut.window ∧ s.OnGrid course t0 N (k + 1)
  | ended t _ => t = course.target ∧ s.OnGrid course t0 N N
  | _ => False

theorem Course.nextLeg_grid {t : Rat} {y : State Rat} {yp : Option (State Rat)} {leg : Leg Rat}
    (directed : course.Directed watches t0) (takes : course.Takes t0 N) (below : k < N) (here : t = t0 + k * course.h)
    (taken : (course.nextLeg t y yp).runFrom s = (.ok leg, s')) : leg.OnGrid course t0 N k (.ofStep leg.step) := by
  obtain ⟨last, start, _, stop, _⟩ := Course.nextLeg_ok taken
  rw [here, Course.isLast_grid directed takes below] at last stop
  refine ⟨below, last, ?_, ?_⟩
  · rw [gridPoint, if_pos below, ← here]
    exact start
  · refine stop.trans ?_
    by_cases final : k + 1 = N
    · simp [gridPoint, final]
    · have more : k + 1 < N := by omega
      simp [gridPoint, final, more, add_one_mul, add_assoc]

theorem Session.OnGrid.accept {cut : Cut} (grid : s.OnGrid course t0 N k)
    (whole : cut.leg.OnGrid course t0 N k cut.piece) (affordable : s.accepted < course.budget) :
    ({ s with accepted := s.accepted + 1 }.noted (.accepted cut.piece cut.leg.last)).OnGrid course t0 N (k + 1) := by
  refine ⟨congrArg (· + 1) grid.count, grid.count ▸ affordable, ?_⟩
  rw [journal_counted, Journal.spans_append, grid.spans, List.range_succ, List.map_append, whole.last]
  refine congrArg _ ?_
  simp [Journal.spans, Journal.pieces, Entry.piece?, gridStep, whole.start, whole.stop]

variable [Spacing Rat] {p q : Stage ω}

/-- Without handlers every move keeps a run on its grid. -/
theorem gridded_move (directed : course.Directed watches t0) (takes : course.Takes t0 N)
    (move : Move course (p, s) (q, s')) (route : p.OnRoute course [] t0 s.monitor) (before : p.Gridded course t0 N s) :
    q.Gridded course t0 N s' := by
  cases move with
  | «open» derivative fits watched observed =>
    obtain ⟨rfl, grid⟩ := before
    have account := ((sameAccount_onTally derivative).trans (sameAccount_onMonitor watched)).trans
      (sameAccount_onObservers observed)
    exact ⟨0, takes.1.1, by simp, grid.congr account⟩
  | step taken =>
    obtain ⟨k, below, here, grid⟩ := before
    exact ⟨k, Course.nextLeg_grid directed takes below here taken, grid.congr (sameAccount_nextLeg taken)⟩
  | clear scanned =>
    obtain ⟨k, whole, grid⟩ := before
    exact ⟨rfl, rfl, rfl, k, whole, grid.congr (sameAccount_scan scanned)⟩
  | locate scanned =>
    rw [Course.scan_unwatched (List.forall₂_nil_left_iff.mp route.2.channels)] at scanned
    cases scanned
  | accept affordable =>
    obtain ⟨carriedOn, same, rfl, k, whole, grid⟩ := before
    exact ⟨carriedOn, same, k, whole, grid.accept (same ▸ whole) affordable⟩
  | tell told =>
    obtain ⟨carriedOn, same, k, whole, grid⟩ := before
    exact ⟨carriedOn, same, k, whole, grid.congr (sameAccount_onObservers told)⟩
  | resume committed resumed =>
    obtain ⟨_, same, k, whole, grid⟩ := before
    have grid := grid.congr (sameAccount_onMonitor committed)
    have stop := (congrArg Window.stop same).trans whole.stop
    have below := whole.below
    cases resumed with
    | ended _ last =>
      rw [whole.last, decide_eq_true_eq] at last
      subst last
      exact ⟨by rw [stop, gridPoint, if_neg (lt_irrefl _)], grid⟩
    | stepping _ more =>
      rw [whole.last, decide_eq_false_iff_not] at more
      have next : k + 1 < N := by omega
      exact ⟨k + 1, next, by rw [stop, gridPoint, if_pos next], grid⟩
    | scanning inner _ => exact absurd (congrArg Window.stop same) inner
  | stop => cases before.1
  | replace reset fits => cases before.1
  | restart => cases before.1
  | _ => exact before.elim

omit [Spacing Rat] in
theorem Stage.Gridded.onGrid (gridded : p.Gridded course t0 N s) :
    ∃ k ≤ N, s.OnGrid course t0 N k := by
  cases p with
  | opening => exact ⟨0, Nat.zero_le N, gridded.2⟩
  | stepping =>
    obtain ⟨k, below, _, grid⟩ := gridded
    exact ⟨k, below.le, grid⟩
  | scanning =>
    obtain ⟨k, whole, grid⟩ := gridded
    exact ⟨k, whole.below.le, grid⟩
  | decided =>
    obtain ⟨_, _, _, k, whole, grid⟩ := gridded
    exact ⟨k, whole.below.le, grid⟩
  | accepted =>
    obtain ⟨_, _, k, whole, grid⟩ := gridded
    exact ⟨k + 1, whole.below, grid⟩
  | told =>
    obtain ⟨_, _, k, whole, grid⟩ := gridded
    exact ⟨k + 1, whole.below, grid⟩
  | ended => exact ⟨N, le_rfl, gridded.2⟩
  | _ => exact gridded.elim

theorem gridded_moves {y0 : State Rat} (directed : course.Directed [] t0) (takes : course.Takes t0 N)
    (created : s.monitor.channels = []) (fresh : s.journal = []) (unspent : s.accepted = 0)
    (path : Moves course (.opening t0 y0, s) (q, s')) :
    q.OnRoute course [] t0 s'.monitor ∧ q.Gridded course t0 N s' := by
  refine path.preserve (P := fun q u => q.OnRoute course [] t0 u.monitor ∧ q.Gridded course t0 N u)
    ⟨⟨rfl, created⟩, rfl, unspent, Nat.zero_le _, by rw [fresh]; rfl⟩ ?_
  exact fun _ _ _ _ ⟨route, gridded⟩ move =>
    ⟨onRoute_move directed move route, gridded_move directed takes move route gridded⟩

/-- A run without handlers in which nothing can go wrong returns if its budget has room for the steps of its grid. -/
theorem Course.run_returns {y0 : State Rat} {r : Except (Error Rat) (Rat × State Rat)}
    (gaps : ∀ x : Rat, 0 ≤ Spacing.ulp x) (sound : course.Sound [] t0 y0) (takes : course.Takes t0 N)
    (created : s.monitor = Monitor.create [])
    (quiet : ∀ o ∈ s.observers, o.Punctual course.forward t0 ∧ ∀ error, ¬ o.Raises y0.shape error)
    (fresh : s.journal = []) (unspent : s.accepted = 0) (room : N ≤ course.budget)
    (ran : (course.run t0 y0).runFrom s = (r, s')) : ∃ final, r = .ok final := by
  cases r with
  | ok final => exact ⟨final, rfl⟩
  | error error =>
    obtain ⟨p, u, path, fails⟩ := Engine.run_failure ran
    obtain ⟨_, gridded⟩ := gridded_moves sound.directed takes (congrArg Monitor.channels created) fresh unspent path
    obtain ⟨route, shown, sized, attended, balanced⟩ :=
      sound.preserve (fun _ => False) gaps created quiet fresh unspent path
    rcases fails.place sound gaps route shown sized attended balanced.affordable with
      ⟨_, absent⟩ | ⟨_, spent, cut, last, verdict, rfl⟩ | impossible
    · exact absurd rfl absent
    · -- Where a piece is to be accepted, there are steps left.
      obtain ⟨_, _, _, k, leg, grid⟩ := gridded
      have below := leg.below
      rw [grid.count] at spent
      omega
    · exact impossible.elim

end

namespace Engine

/-- The step size in the direction of a run. -/
def directedSize (e : Engine ω Rat) (t0 target : Rat) : Rat := runSign (decide (t0 < target)) * |e.stepSize|

/-- The steps of a run without handlers: how many there are to the target, and how many of them the run has made. -/
structure Steps (e e' : Engine ω Rat) (t0 target : Rat) (r : Except (Error Rat) (Rat × State Rat)) (N : Nat) :
    Prop where
  least : IsLeast {n | Suffices |target - t0| |e.stepSize| n} N
  /-- The accepted pieces are steps of the grid, one after the other. -/
  spans : e'.journal.spans =
    (List.range e'.accepted).map (gridStep t0 (e.directedSize t0 target) target N)
  /-- Neither the grid nor the budget is exceeded. -/
  bounded : e'.accepted ≤ min N e.maxSteps
  /-- A run that returns has made all steps. -/
  whole : ∀ t y, r = .ok (t, y) → t = target ∧ e'.accepted = N
  /-- Every step begins before the target. -/
  ahead : ∀ k < N, Precedes (decide (t0 < target)) (t0 + k * e.directedSize t0 target) target
  /-- The last of several steps is neither a sliver nor much longer than the others. -/
  final : 2 ≤ N → let length := |target - (t0 + (N - 1 : Nat) * e.directedSize t0 target)|
    lastStepSlack * |e.stepSize| < length ∧ length ≤ (1 + lastStepSlack) * |e.stepSize|

variable [Spacing Rat]

/-- A run without handlers is refused, or its steps are those of the grid of its step size, as many as suffice. If the
right-hand side answers for every state of the right size and no observer fails, the run returns exactly if its budget
has room for them. -/
theorem integrate_grid (gaps : ∀ x : Rat, 0 ≤ Spacing.ulp x) {e e' : Engine ω Rat} (usable : e.Usable)
    (unwatched : e.watches = []) {equation : Equation ω Rat} {t0 target : Rat} {y0 : State Rat}
    {r : Except (Error Rat) (Rat × State Rat)} {w w' : ω}
    (ran : (integrate equation t0 y0 target).runFrom (e, w) = (r, e', w')) :
    (∃ error, e.prepare equation t0 y0 target = .error error ∧ r = .error error) ∨
      ∃ N, e.Steps e' t0 target r N ∧
        (e.stepper.scheme ≠ .abstract → equation.Total →
          (∀ o ∈ e.observers, o.Punctual (decide (t0 < target)) t0 ∧ ∀ error, ¬ o.Raises y0.shape error) →
          ((∃ final, r = .ok final) ↔ N ≤ e.maxSteps)) := by
  rcases integrate_run ran with ⟨refused, _⟩ | ⟨course, session, prepared, ran, journal, accepted, _⟩
  · exact Or.inl refused
  right
  obtain ⟨directed, same, stepper, aim, budget, forward_eq⟩ := prepare_ok usable prepared
  rw [unwatched] at directed
  have size : course.h = e.directedSize t0 target := by rw [prepare_size prepared, forward_eq, directedSize]
  have length : |course.h| = |e.stepSize| := by
    rw [prepare_size prepared, abs_mul, abs_abs]
    cases course.forward <;> simp [runSign_true, runSign_false]
  obtain ⟨N, least⟩ := exists_least_suffices |target - t0| (abs_pos.mpr usable.size)
  have takes : course.Takes t0 N := by rwa [Course.Takes, aim, length]
  have created : (Session.start w (Monitor.create e.watches) e.observers).monitor = Monitor.create [] :=
    congrArg Monitor.create unwatched
  obtain ⟨stage, v, path, account, ended⟩ := run_path ran
  obtain ⟨_, gridded⟩ := gridded_moves directed takes (congrArg Monitor.channels created) rfl rfl path
  obtain ⟨k, bound, grid⟩ := gridded.onGrid
  have count : e'.accepted = k := by rw [accepted, account.2, grid.count]
  have whole : ∀ t y, r = .ok (t, y) → t = target ∧ e'.accepted = N := by
    intro t y returned
    obtain ⟨rfl, rfl⟩ := ended t y returned
    obtain ⟨reached, all⟩ := gridded
    exact ⟨reached.trans aim, accepted.trans all.count⟩
  refine ⟨N, ⟨least, ?_, ?_, whole, fun k below => ?_, fun several => ?_⟩, fun implemented total quiet => ?_⟩
  · rw [journal, account.journal, grid.spans, count, size, aim]
  · rw [count, ← budget]
    exact le_min bound grid.affordable
  · rw [← forward_eq, ← size, ← aim]
    exact Course.precedes_grid directed takes below
  · rw [← size, ← aim, ← length]
    exact Course.lastStep_grid directed takes several
  · constructor
    · rintro ⟨⟨t, y⟩, returned⟩
      rw [← (whole t y returned).2, count, ← budget]
      exact grid.affordable
    · intro room
      have sound : course.Sound [] t0 y0 :=
        ⟨directed, same ▸ total, stepper ▸ implemented, same ▸ accepts_of_prepare prepared, by simp⟩
      exact Course.run_returns gaps sound takes created (forward_eq ▸ quiet) rfl rfl (budget ▸ room) ran

end Engine

/-- A run without handlers from one back to zero, in three steps. -/
theorem Engine.backward_grid :
    letI := Spacing.gapless
    let e : Engine Unit Rat := timed (2 / 5) []
    let run := (integrate .steady 1 (.ofList [0]) 0).runFrom (e, ())
    e.Steps run.2.1 1 0 run.1 3 ∧ ((∃ final, run.1 = .ok final) ↔ 3 ≤ e.maxSteps) ∧
      run.2.1.journal.spans = [(1, 3 / 5, false), (3 / 5, 1 / 5, false), (1 / 5, 0, true)] := by
  let := Spacing.gapless
  intro e run
  have usable : e.Usable := usable_timed (by decide +kernel) (by decide +kernel)
  have returned : run.1 = .ok (0, .ofList [-1]) := by decide +kernel
  have spans : run.2.1.journal.spans = [(1, 3 / 5, false), (3 / 5, 1 / 5, false), (1 / 5, 0, true)] := by decide +kernel
  rcases integrate_grid (fun _ => le_rfl) usable rfl (Prod.ext rfl rfl) with ⟨_, _, failed⟩ | ⟨N, steps, returns⟩
  · have refused : run.1 = .error _ := failed
    rw [refused] at returned
    cases returned
  · have count : run.2.1.accepted = 3 := by decide +kernel
    obtain rfl : N = 3 := (steps.whole _ _ returned).2.symm.trans count
    exact ⟨steps, returns (by decide) Equation.total_steady (by simp [e, timed]), spans⟩

end Trajectory
