import Mathlib.Data.List.TakeWhile
import Mathlib.Tactic
import Trajectory.Observer
import Trajectory.Proofs.Part

/-!
What a sampler takes from the pieces of which it hears.

From each piece it takes the states at its next times, up to the first one that the piece does not reach, in any kind
of scalars (`accept_samples`). With exact numbers, what it takes from a step does not depend on the parts in which it
hears of it. The samples that the parts of a step yield are those of the step (`take_part`): every part keeps a
sampler trailing behind one that will hear of the whole step at once, and at the end of the step both hold the same
samples (`Trails.accept`, `Trails.settle`).
-/

namespace Trajectory

namespace Sampler

variable {α : Type} [Scalar α] [Spacing α] {forward : Bool} {piece : Window α}

/-- The samples that are taken from a piece are its states at the first times, up to the first one that is not
reached. -/
theorem take_samples {ts ts' : List α} {rows rows' : List (α × State α)}
    (taken : take forward piece ts rows = (.ok (), ts', rows')) :
    ∃ new : List (α × State α), rows' = new.reverse ++ rows ∧ ts = new.map Prod.fst ++ ts' ∧
      (∀ row ∈ new, reached forward row.1 piece.stop = true ∧ piece.stateAt row.1 = .ok row.2) ∧
      ∀ t ∈ ts'.head?, reached forward t piece.stop = false := by
  induction ts generalizing rows with
  | nil =>
    rw [take] at taken
    cases taken
    exact ⟨[], rfl, rfl, fun _ mem => absurd mem List.not_mem_nil, fun _ absent => by cases absent⟩
  | cons t rest ih =>
    cases reach : reached forward t piece.stop with
    | true =>
      rw [take, if_pos reach] at taken
      cases answered : piece.stateAt t with
      | error e =>
        rw [answered] at taken
        cases taken
      | ok y =>
        rw [answered] at taken
        obtain ⟨new, rfl, rfl, held, beyond⟩ := ih taken
        refine ⟨(t, y) :: new, by simp, rfl, fun row mem => ?_, beyond⟩
        rcases List.mem_cons.mp mem with rfl | mem
        · exact ⟨reach, answered⟩
        · exact held row mem
    | false =>
      rw [take, reach, if_neg Bool.false_ne_true] at taken
      cases taken
      refine ⟨[], rfl, rfl, fun _ mem => absurd mem List.not_mem_nil, fun r first => ?_⟩
      cases first
      exact reach

/-- A sampler that hears of a piece takes its next samples from it. -/
theorem accept_samples {s s' : Sampler α} (heard : s.accept piece = (.ok (), s')) :
    s'.forward = s.forward ∧ ∃ new, s'.rows = s.rows ++ new ∧ s.pending = new.map Prod.fst ++ s'.pending ∧
      (∀ row ∈ new, reached s.forward row.1 piece.stop = true ∧ piece.stateAt row.1 = .ok row.2) ∧
      ∀ t ∈ s'.pending.head?, reached s.forward t piece.stop = false := by
  rcases taken : take s.forward piece s.pending s.latestRows with ⟨outcome, ts, rows'⟩
  rw [accept, taken] at heard
  cases heard
  obtain ⟨new, rfl, times, held, beyond⟩ := take_samples taken
  refine ⟨rfl, new, ?_, times, held, beyond⟩
  rw [rows, rows, List.reverse_append, List.reverse_reverse]

end Sampler

/-- Rows with states of one shape make a table, if there are any. -/
theorem Table.ofRows_uniform {α : Type} {shape : Shape} {rows : List (α × State α)} (filled : rows ≠ [])
    (alike : ∀ row ∈ rows, row.2.shape = shape) :
    Table.ofRows rows = .ok ⟨rows.map Prod.fst, rows.map Prod.snd⟩ := by
  cases rows with
  | nil => exact absurd rfl filled
  | cons first rest =>
    have same : rest.all (·.2.shape == first.2.shape) = true := by
      apply List.all_eq_true.mpr
      intro row mem
      rw [alike row (List.mem_cons_of_mem first mem), alike first List.mem_cons_self]
      exact beq_self_eq_true _
    rw [Table.ofRows, if_pos same]

theorem Observer.runFrom_accept_sampler {ω α : Type} [Scalar α] [Spacing α] (s : Sampler α) (piece : Window α)
    (last : Bool) (w : ω) : (Observer.accept piece last).runFrom (.sampler s, w) =
      ((s.accept piece).1, .sampler (s.accept piece).2, w) := by rfl

variable [Spacing Rat] {forward : Bool} {step : Step Rat} {a : Rat} {piece : Window Rat}

/-- A time lies in a window, behind its start. -/
structure Window.Holds (forward : Bool) (w : Window Rat) (t : Rat) : Prop where
  behind : Precedes forward w.start t
  reached : NotAfter forward t w.stop

namespace Sampler

variable {s s' s₀ : Sampler Rat} {ts ts' : List Rat} {rows rows' : List (Rat × State Rat)}

omit [Spacing Rat] in
@[simp] theorem reached_iff {t bound : Rat} : reached forward t bound = true ↔ NotAfter forward t bound := by
  cases forward <;> simp [reached, NotAfter]

/-- Times in the order of a run, all behind a time. -/
structure Ahead (forward : Bool) (a : Rat) (ts : List Rat) : Prop where
  ordered : ts.Pairwise (NotAfter forward)
  behind : ∀ t ∈ ts, Precedes forward a t

omit [Spacing Rat] in
/-- Times in the order of a run come behind a time if the first of them does. -/
theorem Ahead.of_head {t : Rat} (ordered : (t :: ts).Pairwise (NotAfter forward)) (behind : Precedes forward a t) :
    Ahead forward a (t :: ts) := by
  refine ⟨ordered, fun r mem => ?_⟩
  rcases List.mem_cons.mp mem with rfl | mem
  · exact behind
  · exact behind.trans_notAfter ((List.pairwise_cons.mp ordered).1 r mem)

omit [Spacing Rat] in
theorem Ahead.rest {t : Rat} (ahead : Ahead forward a (t :: ts)) : Ahead forward a ts :=
  ⟨ahead.ordered.of_cons, fun r mem => ahead.behind r (List.mem_cons_of_mem t mem)⟩

/-- No samples are taken from a window that ends before the times. -/
theorem take_ahead {w : Window Rat} (ahead : Ahead forward w.stop ts) :
    take forward w ts rows = (.ok (), ts, rows) := by
  cases ts with
  | nil => rfl
  | cons t rest =>
    have beyond : ¬ reached forward t w.stop = true := by
      rw [reached_iff, not_notAfter]
      exact ahead.behind t List.mem_cons_self
    rw [take, if_neg beyond]

/-- The samples that a part of a step yields are those of the step. -/
theorem take_part (gaps : ∀ x : Rat, 0 ≤ Spacing.ulp x) (part : piece.Part forward step)
    (ahead : Ahead forward piece.start ts) (taken : take forward piece ts rows = (.ok (), ts', rows')) :
    Ahead forward piece.stop ts' ∧ take forward (.ofStep step) ts rows = take forward (.ofStep step) ts' rows' := by
  induction ts generalizing rows with
  | nil =>
    rw [take] at taken
    cases taken
    exact ⟨⟨.nil, fun _ mem => absurd mem List.not_mem_nil⟩, rfl⟩
  | cons t rest ih =>
    by_cases reach : NotAfter forward t piece.stop
    · rw [take, if_pos (reached_iff.mpr reach)] at taken
      cases answered : piece.stateAt t with
      | error e =>
        rw [answered] at taken
        cases taken
      | ok y =>
        rw [answered] at taken
        have whole := part.stateAt gaps (ahead.behind t List.mem_cons_self) reach answered
        have inside : NotAfter forward t (Window.ofStep step).stop := reach.trans part.reached
        obtain ⟨ahead', same⟩ := ih ahead.rest taken
        refine ⟨ahead', ?_⟩
        rw [take, if_pos (reached_iff.mpr inside), whole]
        exact same
    · rw [take, if_neg (reached_iff.not.mpr reach)] at taken
      cases taken
      exact ⟨.of_head ahead.ordered (not_notAfter.mp reach), rfl⟩

/-- A sampler that hears of a window takes its next samples from it, at the times that lie in it. -/
theorem accept_rows {w : Window Rat} (ahead : Ahead s.forward w.start s.pending) (heard : s.accept w = (.ok (), s')) :
    s'.forward = s.forward ∧ ∃ new, s'.rows = s.rows ++ new ∧ s.pending = new.map Prod.fst ++ s'.pending ∧
      Ahead s.forward w.stop s'.pending ∧ ∀ row ∈ new, w.Holds s.forward row.1 ∧ w.stateAt row.1 = .ok row.2 := by
  obtain ⟨direction, new, rows, times, held, beyond⟩ := accept_samples heard
  refine ⟨direction, new, rows, times, ?_, fun row mem => ?_⟩
  · have ordered : s'.pending.Pairwise (NotAfter s.forward) := (List.pairwise_append.mp (times ▸ ahead.ordered)).2.1
    cases left : s'.pending with
    | nil => exact ⟨.nil, fun _ mem => absurd mem List.not_mem_nil⟩
    | cons t rest =>
      rw [left] at ordered beyond
      refine .of_head ordered (not_notAfter.mp fun inside => ?_)
      exact Bool.false_ne_true ((beyond t rfl).symm.trans (reached_iff.mpr inside))
  · obtain ⟨reach, answered⟩ := held row mem
    have waiting : row.1 ∈ s.pending := times ▸ List.mem_append_left _ (List.mem_map_of_mem mem)
    exact ⟨⟨ahead.behind row.1 waiting, reached_iff.mp reach⟩, answered⟩

omit [Spacing Rat] in
/-- At the start of a run a sampler takes the initial state at the times with which it begins, as long as they are
the initial time. -/
theorem start_rows (s : Sampler Rat) (t0 : Rat) (y0 : State Rat) (target : Rat) :
    ∃ count, (s.start t0 y0 target).rows = List.replicate count (t0, y0) ∧
      s.requested = List.replicate count t0 ++ (s.start t0 y0 target).pending := by
  have initial : s.requested.takeWhile (· == t0) = List.replicate (s.requested.takeWhile (· == t0)).length t0 := by
    apply List.eq_replicate_of_mem
    intro t mem
    simpa using List.mem_takeWhile_imp mem
  refine ⟨(s.requested.takeWhile (· == t0)).length, ?_, ?_⟩
  · rw [rows, start, List.map_const', List.reverse_replicate]
  · rw [← initial]
    exact List.takeWhile_append_dropWhile.symm

omit [Spacing Rat] in
/-- The times that wait at the start of a run come behind it, if all requested ones are in the order
of the run. -/
theorem ahead_start {t0 target : Rat} {y0 : State Rat} (ordered : (t0 :: s.requested).Pairwise (NotAfter forward)) :
    Ahead forward t0 (s.start t0 y0 target).pending := by
  rw [start]
  dsimp only
  obtain ⟨begun, ordered⟩ := List.pairwise_cons.mp ordered
  generalize s.requested = ts at begun ordered
  induction ts with
  | nil => exact ⟨.nil, fun _ mem => absurd mem List.not_mem_nil⟩
  | cons t rest ih =>
    by_cases same : t = t0
    · rw [List.dropWhile_cons, if_pos (beq_iff_eq.mpr same)]
      exact ih (fun r mem => begun r (List.mem_cons_of_mem t mem)) ordered.of_cons
    · rw [List.dropWhile_cons, if_neg (fun equal => same (beq_iff_eq.mp equal))]
      exact .of_head ordered ((begun t List.mem_cons_self).precedes_of_ne (Ne.symm same))

/-- A sampler that has heard of a step up to a time, and one that has not heard of it. -/
structure Trails (forward : Bool) (step : Step Rat) (a : Rat) (s s₀ : Sampler Rat) : Prop where
  requested : s₀.requested = s.requested
  direction : s.forward = forward
  direction' : s₀.forward = forward
  ahead : Ahead forward a s.pending
  left : take forward (.ofStep step) s₀.pending s₀.latestRows = take forward (.ofStep step) s.pending s.latestRows

/-- Every part of the step keeps a sampler trailing. -/
theorem Trails.accept (gaps : ∀ x : Rat, 0 ≤ Spacing.ulp x) (trails : s.Trails forward step a s₀)
    (part : piece.Part forward step) (start : piece.start = a) (heard : s.accept piece = (.ok (), s')) :
    s'.Trails forward step piece.stop s₀ := by
  rw [Sampler.accept, trails.direction] at heard
  cases taken : take forward piece s.pending s.latestRows with
  | mk outcome left =>
    obtain ⟨ts, rows⟩ := left
    rw [taken] at heard
    cases heard
    obtain ⟨ahead, same⟩ := take_part gaps part (start ▸ trails.ahead) taken
    exact ⟨trails.requested, rfl, trails.direction', ahead, trails.left.trans same⟩

/-- At the end of the step the other sampler catches up. -/
theorem Trails.settle (trails : s.Trails forward step step.tNext s₀) : s₀.accept (.ofStep step) = (.ok (), s) := by
  have all : take forward (.ofStep step) s.pending s.latestRows = (.ok (), s.pending, s.latestRows) :=
    take_ahead (w := .ofStep step) trails.ahead
  rw [Sampler.accept, trails.direction', trails.left, all]
  cases s
  cases s₀
  cases trails.requested
  cases trails.direction
  cases trails.direction'
  rfl

end Sampler

end Trajectory
