import Mathlib.Tactic
import Trajectory.Proofs.Hearing
import Trajectory.Proofs.Passes
import Trajectory.Proofs.Timer

/-!
What a tracker has measured at the end of a run.

The error of a state at a time is the largest component of its difference from the solution (`Problem.Deviates`). A
tracker that hears of pieces keeps the largest of the errors at their midpoints, and the boundaries between the pieces
(`Observer.Hears.tracker`). It compares the times of the expected events with these boundaries only when a piece is
flagged as the last one. That is the last piece of a run that returns, and no other, so all boundaries are there by
then (`Engine.integrate_measures`).
-/

namespace Trajectory

open Effect

variable {ω : Type} {t error error' : Rat} {y : State Rat} {pieces : List (Window Rat × Bool)}

/-! ## Extrema -/

section

variable {a b m : Rat} {s : Set Rat}

theorem isGreatest_foldl_max (a : Rat) (xs : List Rat) : IsGreatest (insert a {x | x ∈ xs}) (xs.foldl max a) := by
  have greatest : (a :: xs).max? = some (xs.foldl max a) := List.max?_cons'
  obtain ⟨mem, bound⟩ := List.max?_eq_some_iff.mp greatest
  exact ⟨List.mem_cons.mp mem, fun x inside => bound x (List.mem_cons.mpr inside)⟩

theorem isLeast_foldl_min (a : Rat) (xs : List Rat) : IsLeast (insert a {x | x ∈ xs}) (xs.foldl min a) := by
  have least : (a :: xs).min? = some (xs.foldl min a) := List.min?_cons'
  obtain ⟨mem, bound⟩ := List.min?_eq_some_iff.mp least
  exact ⟨List.mem_cons.mp mem, fun x inside => bound x (List.mem_cons.mpr inside)⟩

/-- What is not greater than some member need not be counted for the maximum. -/
theorem isGreatest_of_insert (greatest : IsGreatest (insert a s) m) (mem : b ∈ s) (below : a ≤ b) : IsGreatest s m := by
  refine ⟨?_, fun x inside => greatest.2 (Set.mem_insert_of_mem a inside)⟩
  rcases greatest.1 with rfl | inside
  · have above := greatest.2 (Set.mem_insert_of_mem m mem)
    rwa [le_antisymm below above]
  · exact inside

end

/-! ## Errors -/

/-- The largest component of the difference between a state and the solution at a time, which fit together. -/
def Problem.Deviates (p : Problem ω Rat) (t : Rat) (y : State Rat) (error : Rat) : Prop :=
  ∃ exact, p.solutionAt t = .ok exact ∧ requireFit [y, exact] = .ok () ∧
    IsGreatest {d | ∃ x ∈ (y - exact).entries, d = |x|} error

/-- The error of a piece at its midpoint. -/
def Problem.Misses [Spacing Rat] (p : Problem ω Rat) (piece : Window Rat) (error : Rat) : Prop :=
  ∃ y, piece.stateAt ((piece.start + piece.stop) / 2) = .ok y ∧ p.Deviates ((piece.start + piece.stop) / 2) y error

/-- The distance of a time from the nearest of some others. -/
def Clearance (τ : Rat) (times : List Rat) (d : Rat) : Prop := IsLeast {x | ∃ b ∈ times, x = |τ - b|} d

/-- The time at which a run starts, and those at which its pieces end. -/
def borders (t0 : Rat) (pieces : List (Window Rat × Bool)) : List Rat := t0 :: pieces.map (·.1.stop)

section

variable {p : Problem ω Rat} {piece : Window Rat}

theorem Problem.Deviates.unique (deviates : p.Deviates t y error) (deviates' : p.Deviates t y error') :
    error' = error := by
  obtain ⟨_, solved, _, greatest⟩ := deviates
  obtain ⟨_, solved', _, greatest'⟩ := deviates'
  cases solved.symm.trans solved'
  exact greatest'.unique greatest

theorem Problem.Deviates.nonneg (deviates : p.Deviates t y error) : 0 ≤ error := by
  obtain ⟨_, _, _, ⟨x, _, rfl⟩, _⟩ := deviates
  exact abs_nonneg x

theorem Problem.Misses.unique [Spacing Rat] (misses : p.Misses piece error) (misses' : p.Misses piece error') :
    error' = error := by
  obtain ⟨_, answered, deviates⟩ := misses
  obtain ⟨_, answered', deviates'⟩ := misses'
  cases answered.symm.trans answered'
  exact deviates.unique deviates'

theorem Problem.Misses.nonneg [Spacing Rat] (misses : p.Misses piece error) : 0 ≤ error := by
  obtain ⟨_, _, deviates⟩ := misses
  exact deviates.nonneg

theorem Tensor.maxNorm_greatest {norm : Rat} (attained : y.maxNorm? = some norm) :
    IsGreatest {d | ∃ x ∈ y.entries, d = |x|} norm := by
  have worse : (maxNorm?.worse : Rat → Rat → Rat) = max := by
    funext x z
    simp [maxNorm?.worse]
  cases entries : y.entries with
  | nil => simp [maxNorm?, entries] at attained
  | cons x rest =>
    simp only [maxNorm?, entries, List.map_cons, worse, Option.some.injEq] at attained
    subst attained
    convert isGreatest_foldl_max (Scalar.abs x) (rest.map Scalar.abs) using 1
    ext d
    simp [eq_comm]

theorem nearest_least (t b : Rat) (times : List Rat) : Clearance t (b :: times) (Tracker.nearest t (b :: times)) := by
  have same : Tracker.nearest t (b :: times) = (times.map fun c => |t - c|).foldl min |t - b| := by
    simp [Tracker.nearest, List.foldl_map]
  rw [Clearance, same]
  convert isLeast_foldl_min |t - b| (times.map fun c => |t - c|) using 1
  ext d
  simp [eq_comm]

end

namespace Tracker

variable {k k' : Tracker ω Rat} {piece : Window Rat} {last : Bool}

theorem deviation_ok (measured : k.deviation t y = .ok error) : k.problem.Deviates t y error := by
  obtain ⟨exact, solved, measured⟩ := except_bind_ok.mp measured
  obtain ⟨_, fits, measured⟩ := except_bind_ok.mp measured
  cases norm : (y - exact).maxNorm? with
  | none =>
    rw [norm] at measured
    cases measured
  | some norm' =>
    rw [norm] at measured
    cases measured
    exact ⟨exact, solved, fits, Tensor.maxNorm_greatest norm⟩

/-- The times of the expected events are compared with the boundaries one by one. -/
theorem timeError_greatest {t0 : Rat} (boundaries : k.latestBoundaries.reverse = borders t0 pieces) (least : Rat) :
    IsGreatest (insert least {d | ∃ τ ∈ k.problem.eventTimes, Clearance τ (borders t0 pieces) d})
      (k.timeError least) := by
  have same : k.timeError least =
      (k.problem.eventTimes.map fun τ => nearest τ (borders t0 pieces)).foldl max least := by
    simp [timeError, boundaries, List.foldl_map]
  rw [same]
  convert isGreatest_foldl_max least _ using 2
  ext d
  simp only [Set.mem_ofPred_eq, List.mem_map]
  constructor
  · rintro ⟨τ, expected, near⟩
    exact ⟨τ, expected, (nearest_least τ t0 _).unique near⟩
  · rintro ⟨τ, expected, rfl⟩
    exact ⟨τ, expected, nearest_least τ t0 _⟩

variable [Spacing Rat]

theorem midpointError_ok (measured : k.midpointError piece = .ok error) : k.problem.Misses piece error := by
  have mid : 0.5 * (piece.start + piece.stop) = (piece.start + piece.stop) / 2 := by ring
  rw [midpointError, mid] at measured
  obtain ⟨y, answered, deviates⟩ := except_bind_ok.mp measured
  exact ⟨y, answered, deviation_ok deviates⟩

/-- A tracker that has measured a piece at its midpoint. -/
def noted (k : Tracker ω Rat) (piece : Window Rat) (error : Rat) : Tracker ω Rat :=
  { k with
    maxValueError := max k.maxValueError error
    latestBoundaries := piece.stop :: k.latestBoundaries }

/-- A tracker that has also measured a piece at its end, as the last one. -/
def closed (k : Tracker ω Rat) (piece : Window Rat) (error : Rat) : Tracker ω Rat :=
  { k with
    lastError := error
    lastTime := piece.stop
    maxTimeError := k.timeError k.maxTimeError }

/-- A tracker measures every piece at its midpoint, and the last one also at its end. -/
theorem accept_measures (heard : (accept piece last).runFrom k = (.ok (), k')) :
    ∃ error, k.problem.Misses piece error ∧ (last = false → k' = k.noted piece error) ∧
      (last = true → ∃ final, k.problem.Deviates piece.stop piece.yStop final ∧
        k' = (k.noted piece error).closed piece final) := by
  rw [accept, runFrom_bind, runFrom_get] at heard
  obtain ⟨error, _, lifted, heard⟩ := runFrom_bind_ok.mp heard
  obtain ⟨measured, rfl⟩ := runFrom_lift_iff.mp lifted
  rw [runFrom_bind, runFrom_modify, Scalar.larger_rat] at heard
  refine ⟨error, midpointError_ok measured, ?_, ?_⟩
  · rintro rfl
    cases heard
    rfl
  · rintro rfl
    obtain ⟨final, _, lifted, heard⟩ := runFrom_bind_ok.mp heard
    obtain ⟨measured, rfl⟩ := runFrom_lift_iff.mp lifted
    cases heard
    exact ⟨final, deviation_ok measured, rfl⟩

/-- What a tracker becomes by hearing of pieces of which none is flagged as the last one. -/
structure Follows (k : Tracker ω Rat) (pieces : List (Window Rat × Bool)) (k' : Tracker ω Rat) : Prop where
  problem : k'.problem = k.problem
  measured : ∀ q ∈ pieces, ∃ error, k.problem.Misses q.1 error
  worst : IsGreatest (insert k.maxValueError {error | ∃ q ∈ pieces, k.problem.Misses q.1 error}) k'.maxValueError
  boundaries : k'.latestBoundaries.reverse = k.latestBoundaries.reverse ++ pieces.map (·.1.stop)
  waiting : k'.maxTimeError = k.maxTimeError

theorem follows_refl (k : Tracker ω Rat) : k.Follows [] k where
  problem := rfl
  measured _ mem := absurd mem List.not_mem_nil
  worst := by simp
  boundaries := (List.append_nil _).symm
  waiting := rfl

/-- One more piece adds its error and its end. -/
theorem Follows.noted (follows : k.Follows pieces k') (misses : k.problem.Misses piece error) (flag : Bool) :
    k.Follows (pieces ++ [(piece, flag)]) (k'.noted piece error) := by
  have errors : {x | ∃ q ∈ pieces ++ [(piece, flag)], k.problem.Misses q.1 x} =
      insert error {x | ∃ q ∈ pieces, k.problem.Misses q.1 x} := by
    ext x
    constructor
    · rintro ⟨q, mem, misses'⟩
      rcases List.mem_append.mp mem with mem | mem
      · exact Or.inr ⟨q, mem, misses'⟩
      · rw [List.mem_singleton.mp mem] at misses'
        exact Or.inl (misses.unique misses')
    · rintro (rfl | ⟨q, mem, misses'⟩)
      · exact ⟨_, List.mem_append_right _ List.mem_cons_self, misses⟩
      · exact ⟨q, List.mem_append_left _ mem, misses'⟩
  constructor
  · exact follows.problem
  · intro q mem
    rcases List.mem_append.mp mem with mem | mem
    · exact follows.measured q mem
    · rw [List.mem_singleton.mp mem]
      exact ⟨error, misses⟩
  · rw [errors, Set.insert_comm, Tracker.noted, max_comm]
    exact follows.worst.insert error
  · rw [Tracker.noted, List.reverse_cons, follows.boundaries, List.map_append, List.append_assoc]
    rfl
  · exact follows.waiting

/-- What a tracker says of a run that starts at a time and ends at another one, after some pieces. -/
structure Measures (k : Tracker ω Rat) (t0 T : Rat) (pieces : List (Window Rat × Bool)) : Prop where
  /-- Every piece has an error at its midpoint. -/
  measured : ∀ q ∈ pieces, ∃ error, k.problem.Misses q.1 error
  /-- The largest of these errors. -/
  value : IsGreatest {error | ∃ q ∈ pieces, k.problem.Misses q.1 error} k.maxValueError
  lastTime : k.lastTime = T
  /-- The error at the end of the last piece. -/
  lastError : ∃ final ∈ pieces.getLast?, k.problem.Deviates final.1.stop final.1.yStop k.lastError
  /-- The largest distance of an expected event from the nearest border of a piece. -/
  time : k.problem.eventTimes ≠ [] →
    IsGreatest {d | ∃ τ ∈ k.problem.eventTimes, Clearance τ (borders t0 pieces) d} k.maxTimeError
  uneventful : k.problem.eventTimes = [] → k.maxTimeError = 0

/-- A tracker that has followed a run up to the last piece, and then measures the end of it, has measured the run. -/
theorem Follows.measures {t0 : Rat} (follows : (k.start t0).Follows (pieces ++ [(piece, true)]) k')
    (deviates : k.problem.Deviates piece.stop piece.yStop error) :
    (k'.closed piece error).Measures t0 piece.stop (pieces ++ [(piece, true)]) := by
  have zero : (0.0 : Rat) = 0 := by norm_num
  have problem : k'.problem = k.problem := follows.problem
  have last : (piece, true) ∈ pieces ++ [(piece, true)] := List.mem_append_right _ List.mem_cons_self
  have time := timeError_greatest (k := k') follows.boundaries k'.maxTimeError
  have untimed : k'.maxTimeError = 0 := follows.waiting.trans zero
  obtain ⟨worst, misses⟩ := follows.measured _ last
  have least : (0.0 : Rat) ≤ worst := zero ▸ misses.nonneg
  constructor
  · exact problem ▸ follows.measured
  · rw [closed, problem]
    exact isGreatest_of_insert follows.worst ⟨_, last, misses⟩ least
  · rfl
  · exact ⟨(piece, true), by simp, problem ▸ deviates⟩
  · intro expected
    obtain ⟨τ, mem⟩ := List.exists_mem_of_ne_nil _ expected
    have near := nearest_least τ t0 ((pieces ++ [(piece, true)]).map (·.1.stop))
    obtain ⟨b, _, distance⟩ := near.1
    refine isGreatest_of_insert time ⟨τ, mem, near⟩ ?_
    rw [untimed, distance]
    exact abs_nonneg _
  · intro unexpected
    have unexpected' : k'.problem.eventTimes = [] := unexpected
    rw [closed, timeError, unexpected', List.foldl_nil, untimed]

end Tracker

namespace Observer

variable [Spacing Rat] {k : Tracker ω Rat} {o' : Observer ω Rat} {piece : Window Rat}

theorem accept_tracker_ok {last : Bool} {w w' : ω}
    (told : (accept piece last).runFrom (.tracker k, w) = (.ok (), o', w')) :
    ∃ k', o' = .tracker k' ∧ (Tracker.accept piece last).runFrom k = (.ok (), k') := by
  rw [runFrom_accept_tracker] at told
  obtain ⟨accepted, rfl, _⟩ := Prod.mk.inj told |>.imp_right Prod.mk.inj
  exact ⟨_, rfl, Prod.ext accepted rfl⟩

/-- A tracker that hears of pieces of which none is flagged as the last one follows them. -/
theorem Hears.tracker (hears : Hears pieces (.tracker k) o') (unflagged : ∀ q ∈ pieces, q.2 = false) :
    ∃ k', o' = .tracker k' ∧ k.Follows pieces k' := by
  induction pieces using List.reverseRecOn generalizing o' with
  | nil =>
    cases hears
    exact ⟨k, rfl, k.follows_refl⟩
  | append_singleton pieces p ih =>
    obtain ⟨_, _, _, before, told⟩ := hears.init
    obtain ⟨k₁, rfl, follows⟩ := ih before fun q mem => unflagged q (List.mem_append_left _ mem)
    obtain ⟨k₂, rfl, heard⟩ := accept_tracker_ok told
    obtain ⟨error, misses, onward, _⟩ := Tracker.accept_measures heard
    obtain rfl := onward (unflagged p (List.mem_append_right _ List.mem_cons_self))
    exact ⟨_, rfl, follows.noted (follows.problem ▸ misses) p.2⟩

/-- A tracker that attends a run of which the last piece, and no other, is flagged as such measures the run. -/
theorem Attends.tracker {t0 target : Rat} {y0 : State Rat}
    (attends : Attends t0 y0 target (pieces ++ [(piece, true)]) (.tracker k) o')
    (unflagged : ∀ q ∈ pieces, q.2 = false) :
    ∃ k', o' = .tracker k' ∧ k'.problem = k.problem ∧ k'.Measures t0 piece.stop (pieces ++ [(piece, true)]) := by
  obtain ⟨_, _, _, started, hears⟩ := attends
  cases started
  obtain ⟨_, _, _, before, told⟩ := hears.init
  obtain ⟨k₁, rfl, follows⟩ := before.tracker unflagged
  obtain ⟨k₂, rfl, heard⟩ := accept_tracker_ok told
  obtain ⟨error, misses, _, closing⟩ := Tracker.accept_measures heard
  obtain ⟨final, deviates, rfl⟩ := closing rfl
  have whole := follows.noted (follows.problem ▸ misses) true
  exact ⟨_, rfl, whole.problem, whole.measures (follows.problem ▸ deviates)⟩

/-- What a tracker says of the last run: the largest errors of the states and of the expected events, and the error at
the end with its time. -/
def readings : Observer ω Rat → List Rat
  | tracker k => [k.maxValueError, k.maxTimeError, k.lastError, k.lastTime]
  | _ => []

end Observer

/-- In a run that returns, whatever its handlers and wherever it ends, every tracker measures the whole run. -/
theorem Engine.integrate_measures [Spacing Rat] {e e' : Engine ω Rat} {equation : Equation ω Rat} {place : Nat}
    {k : Tracker ω Rat} (observes : e.observers[place]? = some (.tracker k)) {t0 target T : Rat} {y0 y : State Rat}
    {w w' : ω} (ran : (integrate equation t0 y0 target).runFrom (e, w) = (.ok (T, y), e', w')) :
    ∃ k', e'.observers[place]? = some (.tracker k') ∧ k'.problem = k.problem ∧
      k'.Measures t0 T e'.journal.pieces := by
  obtain ⟨o', observes', attends⟩ := forall₂_getElem? (integrate_attends ran).flip observes
  obtain ⟨earlier, final, whole, unflagged, rfl⟩ := integrate_final ran
  rw [whole] at attends ⊢
  obtain ⟨k', rfl, measures⟩ := Observer.Attends.tracker attends unflagged
  exact ⟨k', observes', measures⟩

/-- A problem whose solution grows twice as fast as the steady unknown, with two expected events. -/
def Problem.doubled : Problem Unit Rat where
  name := "Doubled"
  t0 := 0
  tFinal := 1
  y0 := .ofList [0]
  rate _ y := y.map fun _ => 2
  solution t := .ofList [2 * t]
  handlers := []
  eventTimes := [1 / 2, 3 / 4]
  rateDomain := Problem.everywhere
  stateDomain := Problem.everywhere
  solutionDomain := Problem.everywhere

/-- A run that an event cuts and another one ends, with a tracker that has already been used. -/
theorem Engine.doubled_measures :
    letI := Spacing.gapless
    let settings : Settings Rat := ⟨none, 1 / 100, 100, none⟩
    let timers := timed 1 [(.timer (1 / 4) .carryOn (.ofList [0]), settings),
      (.timer (3 / 4) .stop (.ofList [0]), settings)]
    let used : Tracker Unit Rat := ⟨.doubled, 5, 6, 7, 8, [9, 10]⟩
    let run := (integrate .steady 0 (.ofList [0]) 1).runFrom (timers.addObserver (.tracker used), ())
    run.1 = .ok (3 / 4, .ofList [3 / 4]) ∧ ∃ k, run.2.1.observers[0]? = some (.tracker k) ∧
      (Observer.tracker k).readings = [1 / 2, 1 / 4, 3 / 4, 3 / 4] ∧ k.Measures 0 (3 / 4) run.2.1.journal.pieces := by
  let := Spacing.gapless
  intro settings timers used run
  have returned : run.1 = .ok (3 / 4, .ofList [3 / 4]) := by decide +kernel
  have ran : run = (.ok (3 / 4, .ofList [3 / 4]), run.2) := Prod.ext returned rfl
  have registered : (timers.addObserver (.tracker used)).observers[0]? = some (.tracker used) := rfl
  obtain ⟨k, observes, _, measures⟩ := integrate_measures registered ran
  have readings : run.2.1.observers[0]?.map Observer.readings = some [1 / 2, 1 / 4, 3 / 4, 3 / 4] := by decide +kernel
  rw [observes, Option.map_some, Option.some_inj] at readings
  exact ⟨returned, k, observes, readings, measures⟩

end Trajectory
