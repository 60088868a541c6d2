import Mathlib.Tactic
import Trajectory.Proofs.Observer.Sampler
import Trajectory.Proofs.Solution
import Trajectory.Proofs.Strict
import Trajectory.Proofs.Uniform

/-!
What becomes of the requested times of a history, in any kind of scalars.

Requested times are refused by comparisons that hold: some time lies outside the span, some difference has the wrong
sign (`InitialValue.rowTimes_line`). A sampler takes times by comparisons that hold, too, up to the first one that it
has not reached (`Engine.integrate_taken`). For numbers these are two sides of one thing: a number that does not lie
outside the span is reached by a run that arrives at the target (`InitialValue.reached_of_inside`). What is not a number
passes the first test and fails the second one. So a run that arrives holds a row for each of the requested times up to
the first one that is not a number, for all of them if they are numbers, and for none behind it
(`InitialValue.history_requests`).
-/

namespace Trajectory

open Effect

variable {ω α : Type} [Scalar α]

omit [Scalar α] in
/-- The first elements that pass a test are those of a list before one that does not. -/
theorem takeWhile_of_split {test : α → Bool} {xs ys : List α} (pass : ∀ x ∈ xs, test x = true)
    (stops : ∀ y ∈ ys.head?, ¬ test y = true) : (xs ++ ys).takeWhile test = xs := by
  rw [List.takeWhile_append_of_pos pass]
  cases ys with
  | nil => rw [List.takeWhile_nil, List.append_nil]
  | cons y rest => rw [List.takeWhile_cons, if_neg (stops y rfl), List.append_nil]

/-- A run that has a course starts and ends at numbers. -/
theorem Engine.finite_of_prepare {e : Engine ω α} {equation : Equation ω α} {t0 target : α} {y0 : State α}
    {course : Course ω α} (prepared : e.prepare equation t0 y0 target = .ok course) :
    Scalar.isFinite t0 = true ∧ Scalar.isFinite target = true := by
  obtain ⟨_, bounded, _⟩ := except_bind_ok.mp prepared
  rw [requireBounds] at bounded
  split at bounded
  · rename_i finite
    exact Bool.and_eq_true_iff.mp finite
  · cases bounded

section

variable [Spacing α]

/-- A sampler that hears of pieces takes the states at its next times, each from a piece that has reached it. -/
theorem Observer.Hears.samples {pieces : List (Window α × Bool)} {s : Sampler α} {o' : Observer ω α}
    (hears : Observer.Hears pieces (.sampler s) o') :
    ∃ s' new, o' = .sampler s' ∧ s'.forward = s.forward ∧ s'.rows = s.rows ++ new ∧
      s.pending = new.map Prod.fst ++ s'.pending ∧ ∀ row ∈ new, ∃ p ∈ pieces,
        Sampler.reached s.forward row.1 p.1.stop = true ∧ p.1.stateAt row.1 = .ok row.2 := by
  induction pieces generalizing s with
  | nil =>
    cases hears
    exact ⟨s, [], rfl, rfl, (List.append_nil _).symm, rfl, fun _ mem => absurd mem List.not_mem_nil⟩
  | cons p rest ih =>
    cases hears with
    | next told hears =>
      rw [runFrom_accept_sampler] at told
      obtain ⟨accepted, rfl, _⟩ := Prod.mk.inj told |>.imp_right Prod.mk.inj
      obtain ⟨direction, first, rows, times, held, _⟩ := Sampler.accept_samples (Prod.ext accepted rfl)
      obtain ⟨s', new, rfl, direction', samples, left, found⟩ := ih hears
      rw [direction] at direction' found
      refine ⟨s', first ++ new, rfl, direction', ?_, ?_, fun row mem => ?_⟩
      · rw [samples, rows, List.append_assoc]
      · rw [times, left, List.map_append, List.append_assoc]
      · rcases List.mem_append.mp mem with mem | mem
        · exact ⟨_, List.mem_cons_self, held row mem⟩
        · obtain ⟨q, later, holds⟩ := found row mem
          exact ⟨q, List.mem_cons_of_mem _ later, holds⟩

/-- What a sampler that was registered last has taken from a run that returns: the initial state at the times with which
it begins, as long as they are the initial one, and the states at the next times, up to the first one that the run has
not reached. -/
theorem Engine.integrate_taken {e e' : Engine ω α} {equation : Equation ω α} {times : List α} {t0 target T : α}
    {y0 y : State α} {w w' : ω} (ran : (integrate equation t0 y0 target).runFrom
      (e.addObserver (.sampler (.create times)), w) = (.ok (T, y), e', w')) :
    ∃ others s initial new, e'.observers = others ++ [.sampler s] ∧ initial = times.takeWhile (· == t0) ∧
      s.rows = initial.map (fun _ => (t0, y0)) ++ new ∧ times = initial ++ new.map Prod.fst ++ s.pending ∧
      (∀ row ∈ new, ∃ p ∈ e'.journal.pieces,
        Sampler.reached (decide (t0 ≤ target)) row.1 p.1.stop = true ∧ p.1.stateAt row.1 = .ok row.2) ∧
      ∀ t ∈ s.pending.head?, Sampler.reached (decide (t0 ≤ target)) t T = false := by
  obtain ⟨earlier, final, pieces, _, rfl⟩ := integrate_final ran
  obtain ⟨others, o, observers, attends⟩ := forall₂_concat (integrate_attends ran)
  rw [pieces] at attends ⊢
  obtain ⟨_, _, _, begun, hears⟩ := attends
  cases begun
  obtain ⟨before, _, _, heard, told⟩ := hears.init
  obtain ⟨s, first, rfl, direction, rows, waiting, found⟩ := heard.samples
  rw [Observer.runFrom_accept_sampler] at told
  obtain ⟨accepted, rfl, _⟩ := Prod.mk.inj told |>.imp_right Prod.mk.inj
  obtain ⟨_, new, rows', waiting', held, beyond⟩ := Sampler.accept_samples (Prod.ext accepted rfl)
  rw [direction] at held beyond
  have begins : ((Sampler.create times).start t0 y0 target).rows =
      (times.takeWhile (· == t0)).map fun _ => (t0, y0) := by
    change ((times.takeWhile (· == t0)).map fun _ => (t0, y0)).reverse = _
    rw [List.map_const', List.reverse_replicate]
  refine ⟨others, _, _, first ++ new, observers, rfl, ?_, ?_, fun row mem => ?_, beyond⟩
  · rw [rows', rows, begins, List.append_assoc]
  · rw [List.map_append, List.append_assoc, List.append_assoc, ← waiting', ← waiting]
    exact List.takeWhile_append_dropWhile.symm
  · rcases List.mem_append.mp mem with mem | mem
    · obtain ⟨q, handed, taken⟩ := found row mem
      exact ⟨q, List.mem_append_left _ handed, taken⟩
    · exact ⟨_, List.mem_append_right _ List.mem_cons_self, held row mem⟩

end

namespace InitialValue

variable {p : InitialValue ω α} {times : Tensor α} {n : Nat} {t T : α}

/-- Comparisons find a time outside the span. -/
def Outside (p : InitialValue ω α) (t : α) : Prop :=
  t < Scalar.smaller p.start p.target ∨ Scalar.larger p.start p.target < t

/-- The times at which a history has rows: the requested ones, with the start time in front if they do not begin with
it. -/
def requested (p : InitialValue ω α) (times : List α) : List α :=
  if times.head?.any (sameTime · p.start) then times else p.start :: times

section

variable (line : times.shape = [n]) (plain : ∀ t ∈ p.start :: p.target :: times.entries, Scalar.flush t = t)

include plain in
theorem outside_iff : (times.entries.any (earlier · (Scalar.smaller p.start p.target)) ||
    times.entries.any (earlier (Scalar.larger p.start p.target) ·)) = true ↔ ∃ t ∈ times.entries, p.Outside t := by
  have start := plain p.start List.mem_cons_self
  have target := plain p.target (List.mem_cons_of_mem _ List.mem_cons_self)
  have least : Scalar.flush (Scalar.smaller p.start p.target) = Scalar.smaller p.start p.target := by
    unfold Scalar.smaller
    split <;> assumption
  have most : Scalar.flush (Scalar.larger p.start p.target) = Scalar.larger p.start p.target := by
    unfold Scalar.larger
    split <;> assumption
  simp only [Bool.or_eq_true, List.any_eq_true, earlier, decide_eq_true_eq, least, most]
  have same : ∀ t ∈ times.entries, Scalar.flush t = t :=
    fun t mem => plain t (List.mem_cons_of_mem _ (List.mem_cons_of_mem _ mem))
  constructor
  · rintro (⟨t, mem, less⟩ | ⟨t, mem, more⟩)
    · exact ⟨t, mem, .inl (same t mem ▸ less)⟩
    · exact ⟨t, mem, .inr (same t mem ▸ more)⟩
  · rintro ⟨t, mem, less | more⟩
    · exact .inl ⟨t, mem, (same t mem).symm ▸ less⟩
    · exact .inr ⟨t, mem, (same t mem).symm ▸ more⟩

include plain in
/-- Times are refused if one of them lies outside the span. -/
theorem rowTimes_outside (outside : ∃ t ∈ times.entries, p.Outside t) :
    p.rowTimes (some times) = .error .sampleOutsideSpan := by
  have refused := (outside_iff plain).mpr outside
  simp only [rowTimes, refused, if_true]
  rfl

include line plain in
/-- Times in the span are refused if one of them runs against the one before it. -/
theorem rowTimes_disordered (inside : ∀ t ∈ times.entries, ¬ p.Outside t)
    (disorder : disordered (decide (p.start ≤ p.target)) times.entries = true) :
    p.rowTimes (some times) = .error .samplesUnordered := by
  have admitted := (outside_iff plain).not.mpr fun ⟨t, mem, outside⟩ => inside t mem outside
  simp only [rowTimes, admitted, unordered_line line, disorder]
  rfl

include line plain in
/-- Other times are accepted. -/
theorem rowTimes_ordered (filled : times.entries ≠ []) (inside : ∀ t ∈ times.entries, ¬ p.Outside t)
    (ordered : disordered (decide (p.start ≤ p.target)) times.entries = false) :
    ∃ rows, p.rowTimes (some times) = .ok rows ∧
      Sampler.ofTensor rows = .ok (.create (p.requested times.entries)) := by
  have admitted := (outside_iff plain).not.mpr fun ⟨t, mem, outside⟩ => inside t mem outside
  have accepted : p.rowTimes (some times) = withStart p.start times := by
    simp only [rowTimes, admitted, unordered_line line, ordered]
    rfl
  obtain ⟨first, rest, entries⟩ := List.exists_cons_of_ne_nil filled
  have completed : withStart p.start times =
      .ok (if sameTime first p.start then times else Tensor.ofList (p.start :: times.entries)) := by
    simp only [withStart, line, entries]
  refine ⟨_, accepted.trans completed, ?_⟩
  rw [requested, entries, List.head?_cons, Option.any_some]
  split
  · rw [Sampler.ofTensor, line, entries]
  · rfl

end

theorem number_of_reached [Scalar.Comparing α] {forward : Bool} (arrives : Sampler.reached forward t T = true) :
    (t == t) = true := by
  cases forward with
  | true => exact (Scalar.Comparing.le_iff.mp (of_decide_eq_true arrives)).1
  | false => exact (Scalar.Comparing.le_iff.mp (of_decide_eq_true arrives)).2.1

section

variable [Scalar.Comparing α] (start : (p.start == p.start) = true) (target : (p.target == p.target) = true)

include start target in
/-- A number that does not lie outside the span is reached by a run that arrives at the target. -/
theorem reached_of_inside (arrived : (T == p.target) = true) (number : (t == t) = true) (inside : ¬ p.Outside t) :
    Sampler.reached (decide (p.start ≤ p.target)) t T = true := by
  have least : ¬ t < Scalar.smaller p.start p.target := fun less => inside (.inl less)
  have most : ¬ Scalar.larger p.start p.target < t := fun more => inside (.inr more)
  have end_ : (T == T) = true := Scalar.Comparing.self_of_beq arrived
  by_cases forward : p.start ≤ p.target
  · have before : ¬ p.target < t := by
      rw [Scalar.larger] at most
      split at most
      · exact most
      · rename_i same
        have back := (Scalar.Comparing.le_iff.mp forward).2.2
        exact fun more => most ((Scalar.Comparing.lt_congr_left
          (Scalar.Comparing.beq_of_not_lt start target same back)).mpr more)
    rw [Sampler.reached, decide_eq_true forward, if_pos rfl]
    refine decide_eq_true (Scalar.Comparing.le_iff.mpr ⟨number, end_, fun more => before ?_⟩)
    exact (Scalar.Comparing.lt_congr_left arrived).mp more
  · have back : p.target < p.start := by
      by_contra later
      exact forward (Scalar.Comparing.le_iff.mpr ⟨start, target, later⟩)
    rw [Scalar.smaller, if_pos back] at least
    rw [Sampler.reached, decide_eq_false forward, if_neg Bool.false_ne_true]
    refine decide_eq_true (Scalar.Comparing.le_iff.mpr ⟨end_, number, fun less => least ?_⟩)
    exact (Scalar.Comparing.lt_congr_right arrived).mp less

omit [Scalar.Comparing α] in
include start in
theorem begins_requested (plain : ∀ t ∈ p.start :: p.target :: times.entries, Scalar.flush t = t) :
    ∃ first rest, p.requested times.entries = first :: rest ∧ (first == p.start) = true := by
  rw [requested]
  rcases entries : times.entries with _ | ⟨first, rest⟩
  · exact ⟨p.start, [], rfl, start⟩
  · rw [List.head?_cons, Option.any_some]
    split
    · rename_i same
      rw [sameTime, plain first (by simp [entries]), plain p.start (by simp)] at same
      exact ⟨first, rest, rfl, same⟩
    · exact ⟨p.start, first :: rest, rfl, start⟩

omit [Scalar.Comparing α] in
theorem mem_requested {ts : List α} (mem : t ∈ p.requested ts) : t = p.start ∨ t ∈ ts := by
  rw [requested] at mem
  split at mem
  · exact .inr mem
  · exact List.mem_cons.mp mem

theorem inside_start (p : InitialValue ω α) : ¬ p.Outside p.start := by
  have apart : ¬ p.start < p.start := fun less => Scalar.Comparing.lt_asymm less less
  rintro (less | more)
  · rw [Scalar.smaller] at less
    split at less
    · rename_i back
      exact Scalar.Comparing.lt_asymm less back
    · exact apart less
  · rw [Scalar.larger] at more
    split at more
    · rename_i ahead
      exact Scalar.Comparing.lt_asymm more ahead
    · exact apart more

end

section

variable [Spacing α] [Scalar.Comparing α] {e e' : Engine ω α} {equation : Equation ω α} {y : State α} {w w' : ω}

/-- If no time lies outside the span, the sampler of a run that arrives at the target has taken the states at the
requested times up to the first one that is not a number. -/
theorem rows_of_run (plain : ∀ t ∈ p.start :: p.target :: times.entries, Scalar.flush t = t)
    (inside : ∀ t ∈ times.entries, ¬ p.Outside t)
    (ran : (Engine.integrate equation p.start p.y0 p.target).runFrom
      (e.addObserver (.sampler (.create (p.requested times.entries))), w) = (.ok (T, y), e', w'))
    (arrived : (T == p.target) = true) : ∃ others s, e'.observers = others ++ [.sampler s] ∧ s.rows ≠ [] ∧
      List.Forall₂ (fun row t => (row.1 == t) = true) s.rows
        ((p.requested times.entries).takeWhile fun t => t == t) ∧
      ∀ row ∈ s.rows, row.2 = p.y0 ∨ ∃ q ∈ e'.journal.pieces, q.1.stateAt row.1 = .ok row.2 := by
  obtain ⟨others, s, initial, new, observers, begins, rows, split, held, beyond⟩ := Engine.integrate_taken ran
  obtain ⟨_, _, prepared, _⟩ := Engine.integrate_ok ran
  obtain ⟨finite, finite'⟩ := Engine.finite_of_prepare prepared
  have start : (p.start == p.start) = true := Scalar.Comparing.self_of_isFinite finite
  have target : (p.target == p.target) = true := Scalar.Comparing.self_of_isFinite finite'
  have same : ∀ t ∈ initial, (t == p.start) = true := by
    intro t mem
    rw [begins] at mem
    simpa using List.mem_takeWhile_imp mem
  have arrives : ∀ row ∈ new, (row.1 == row.1) = true := by
    intro row mem
    obtain ⟨_, _, arrives, _⟩ := held row mem
    exact number_of_reached arrives
  have numbers : (p.requested times.entries).takeWhile (fun t => t == t) = initial ++ new.map Prod.fst := by
    rw [split]
    refine takeWhile_of_split (fun t mem => ?_) fun t left number => ?_
    · rcases List.mem_append.mp mem with mem | mem
      · exact Scalar.Comparing.self_of_beq (same t mem)
      · obtain ⟨row, listed, rfl⟩ := List.mem_map.mp mem
        exact arrives row listed
    · -- A number that is left would have been reached.
      have listed : t ∈ p.requested times.entries := split ▸ List.mem_append_right _ (List.mem_of_mem_head? left)
      have within : ¬ p.Outside t := by
        rcases mem_requested listed with rfl | listed
        · exact p.inside_start
        · exact inside t listed
      exact Bool.false_ne_true ((beyond t left).symm.trans (reached_of_inside start target arrived number within))
  refine ⟨others, s, observers, ?_, ?_, fun row mem => ?_⟩
  · obtain ⟨first, rest, requested, same⟩ := begins_requested start plain
    rw [rows, begins, requested, List.takeWhile_cons, if_pos same]
    exact List.cons_ne_nil _ _
  · rw [rows, numbers]
    refine List.rel_append ?_ (List.forall₂_map_right_iff.mpr (List.forall₂_same.mpr arrives))
    refine List.forall₂_map_left_iff.mpr (List.forall₂_same.mpr fun t mem => ?_)
    exact Scalar.Comparing.beq_symm (same t mem)
  · rw [rows] at mem
    rcases List.mem_append.mp mem with mem | mem
    · obtain ⟨_, _, rfl⟩ := List.mem_map.mp mem
      exact .inl rfl
    · obtain ⟨q, handed, _, answered⟩ := held row mem
      exact .inr ⟨q, handed, answered⟩

end

/-- A history refuses its times before it integrates if comparisons find one of them outside the span, and else if one
of them runs against the one before it. Otherwise, if its run arrives at the target, it has a row for each of the
requested times up to the first one that is not a number: for all of them if they are numbers, with the start time in
front if they do not begin with it. -/
theorem history_requests [Spacing α] [Scalar.Comparing α] (line : times.shape = [n]) (filled : times.entries ≠ [])
    (plain : ∀ t ∈ p.start :: p.target :: times.entries, Scalar.flush t = t) (verbose : Bool) (ns : List (Notice α))
    (w : ω) :
    ((∃ t ∈ times.entries, p.Outside t) →
      (p.history (some times) verbose).runFrom (ns, w) = (.error .sampleOutsideSpan, ns, w)) ∧
    ((∀ t ∈ times.entries, ¬ p.Outside t) → disordered (decide (p.start ≤ p.target)) times.entries = true →
      (p.history (some times) verbose).runFrom (ns, w) = (.error .samplesUnordered, ns, w)) ∧
    ∀ equation e e' y w', (∀ t ∈ times.entries, ¬ p.Outside t) →
      disordered (decide (p.start ≤ p.target)) times.entries = false →
      p.source.toEquation p.y0 = .ok equation → p.engine = .ok e → equation.Keeps p.y0.shape →
      (verbose = true → ∃ steps, p.estimate = .ok steps) →
      (Engine.integrate equation p.start p.y0 p.target).runFrom
        (e.addObserver (.sampler (.create (p.requested times.entries))), w) = (.ok (T, y), e', w') →
      (T == p.target) = true →
      ∃ rows ns',
        (p.history (some times) verbose).runFrom (ns, w) = (.ok ⟨rows.map Prod.fst, rows.map Prod.snd⟩, ns', w') ∧
        List.Forall₂ (fun row t => (row.1 == t) = true) rows
          ((p.requested times.entries).takeWhile fun t => t == t) ∧
        ((∀ t ∈ times.entries, (t == t) = true) →
          List.Forall₂ (fun row t => (row.1 == t) = true) rows (p.requested times.entries)) := by
  refine ⟨fun outside => history_of_refused (rowTimes_outside plain outside) verbose ns w, fun inside disorder =>
    history_of_refused (rowTimes_disordered line plain inside disorder) verbose ns w, ?_⟩
  intro equation e e' y w' inside ordered system built keeps countable ran arrived
  obtain ⟨_, accepted, sampled⟩ := rowTimes_ordered line plain filled inside ordered
  obtain ⟨others, s, observers, nonempty, answered, found⟩ := rows_of_run plain inside ran arrived
  obtain ⟨ns', told⟩ := history_of_run accepted sampled system built ran observers countable ns
  have alike : ∀ row ∈ s.rows, row.2.shape = p.y0.shape := by
    intro row mem
    rcases found row mem with initial | ⟨q, handed, taken⟩
    · rw [initial]
    · exact (Engine.integrate_uniform keeps ran q handed).stateAt_shape taken
  have table : (Observer.sampler s : Observer ω α).table = .ok ⟨s.rows.map Prod.fst, s.rows.map Prod.snd⟩ :=
    Table.ofRows_uniform nonempty alike
  refine ⟨s.rows, ns', by rw [told, table], answered, fun defined => ?_⟩
  rwa [List.takeWhile_eq_self_iff.mpr] at answered
  intro t mem
  rcases mem_requested mem with rfl | mem
  · obtain ⟨_, _, prepared, _⟩ := Engine.integrate_ok ran
    exact Scalar.Comparing.self_of_isFinite (Engine.finite_of_prepare prepared).1
  · exact defined t mem

/-- A steady run of floating-point numbers in a single step. -/
def singleStep : InitialValue Unit Float where
  source := .equation ⟨⟨fun _ _ => pure (.ofList [1.0]), pure (), fun _ _ => .ok (.ofList [1.0])⟩, 1, "steady"⟩
  start := 0.0
  target := 1.0
  y0 := .ofList [0.0]
  stepper := ⟨.euler, false⟩
  stepSize := 1.0
  handlers := []
  maxSteps := 100

/-- What is not a number does not lie in the span, but it is accepted among the requested times: a run that arrives at
the target leaves a row for the first one of three times only. -/
theorem history_undefined :
    let undefined : Float := 0.0 / 0.0
    ¬ (0.0 ≤ undefined ∧ undefined ≤ 1.0) ∧
      (singleStep.solve.runFrom ([], ())).1 = .ok (1.0, .ofList [1.0]) ∧
      ((singleStep.history (some (.ofList [0.0, undefined, 1.0])) false).runFrom ([], ())).1 =
        .ok ⟨[0.0], [.ofList [0.0]]⟩ := by
  decide +kernel

/-- There is a row for the start and for each of two requested times. -/
theorem history_halves : ∃ rows : List (Float × State Float),
    ((singleStep.history (some (.ofList [0.5, 1.0])) false).runFrom ([], ())).1 =
        .ok ⟨rows.map Prod.fst, rows.map Prod.snd⟩ ∧
      List.Forall₂ (fun row t => (row.1 == t) = true) rows [0.0, 0.5, 1.0] := by
  let e : Engine Unit Float := ⟨⟨.euler, false⟩, 1.0, 100, [], [], none, 0, 0, []⟩
  have size : checkStepSize (1.0 : Float) = .ok 1.0 := by decide +kernel
  have built : singleStep.engine = .ok e := by
    rw [engine, Engine.create, singleStep, size]
    rfl
  have plain : ∀ t ∈ [(0.0 : Float), 1.0, 0.5, 1.0], Scalar.flush t = t := by decide +kernel
  have inside : ∀ t ∈ [(0.5 : Float), 1.0], ¬ singleStep.Outside t := by
    unfold Outside
    decide +kernel
  have numbers : ∀ t ∈ [(0.5 : Float), 1.0], (t == t) = true := by decide +kernel
  have requested : singleStep.requested [0.5, 1.0] = [0.0, 0.5, 1.0] := by decide +kernel
  let run := (Engine.integrate ⟨⟨fun _ _ => pure (.ofList [1.0]), pure (), fun _ _ => .ok (.ofList [1.0])⟩, 1, "steady"⟩
    0.0 (.ofList [0.0]) 1.0).runFrom (e.addObserver (.sampler (.create (singleStep.requested [0.5, 1.0]))), ())
  have returned : run.1 = .ok (1.0, .ofList [1.0]) := by decide +kernel
  have line : (Tensor.ofList [(0.5 : Float), 1.0]).shape = [2] := rfl
  obtain ⟨rows, _, told, _, all⟩ := (history_requests (p := singleStep) line (by simp) plain false [] ()).2.2
    _ e _ _ _ inside (by decide +kernel) rfl built
    ⟨fun _ _ _ => Effect.ends_pure rfl, fun _ _ _ _ same => by cases same; rfl⟩
    (fun absurd => by cases absurd) (Prod.ext returned rfl) (by decide +kernel)
  exact ⟨rows, by rw [told], requested ▸ all numbers⟩

end InitialValue

end Trajectory
