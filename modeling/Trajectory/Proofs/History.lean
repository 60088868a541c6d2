import Mathlib.Tactic
import Trajectory.Proofs.Bystander
import Trajectory.Proofs.Sampling
import Trajectory.Proofs.Solution

/-!
The rows of a history.

The times of a history that have been accepted are in the order of its run, from the start on
(`InitialValue.rowTimes_ok`). So its sampler holds the rows of the times that the run has reached. As a
run does not depend on the sampler that listens to it, neither does the row of a time depend on the other
times (`InitialValue.history_samples`).
-/

namespace Trajectory

open Effect

variable {ω : Type} {forward : Bool} {t T : Rat}

namespace InitialValue

variable {p : InitialValue ω Rat} {times : Option (Tensor Rat)}

/-- The times of the rows that a history is asked for: the requested ones, with the start time in front if they do
not begin with it, or the two ends of the span. -/
def wanted (p : InitialValue ω Rat) (times : Option (Tensor Rat)) : List Rat :=
  match times with
  | none => [p.start, p.target]
  | some times => if times.entries.head? = some p.start then times.entries else p.start :: times.entries

/-- Times none of which is less than the one before it, or greater for a run to earlier times, are in the order of
the run. -/
theorem ordered_of_disordered {ts : List Rat} (ordered : disordered forward ts = false) :
    ts.Pairwise (NotAfter forward) := by
  have zero : (0.0 : Rat) = 0 := by norm_num
  have chain : ts.IsChain (NotAfter forward) := by
    induction ts with
    | nil => exact .nil
    | cons s rest ih =>
      cases rest with
      | nil => exact .singleton s
      | cons t rest =>
        rw [disordered, List.tail_cons, List.zipWith_cons_cons, List.any_cons, Bool.or_eq_false_iff] at ordered
        obtain ⟨first, others⟩ := ordered
        refine .cons_cons ?_ (ih others)
        cases forward with
        | true => simpa [NotAfter, zero] using first
        | false => simpa [NotAfter, zero] using first
  have : Trans (NotAfter forward) (NotAfter forward) (NotAfter forward) := ⟨NotAfter.trans⟩
  exact List.isChain_iff_pairwise.mp chain

/-- Times that a sampler can be given, once the start time has been put in front of them, have one axis. -/
theorem withStart_line {start : Rat} {rows ts : Tensor Rat} {sampler : Sampler Rat}
    (completed : withStart start ts = .ok rows) (sampled : Sampler.ofTensor rows = .ok sampler) :
    ∃ n, ts.shape = [n] ∧
      sampler = .create (if ts.entries.head? = some start then ts.entries else start :: ts.entries) := by
  have compared : ∀ s : Rat, sameTime s start = decide (s = start) := fun s => rfl
  rw [withStart.eq_def] at completed
  split at completed
  · cases completed
  · rename_i n first rest shape entries
    refine ⟨n, shape, ?_⟩
    rw [compared] at completed
    rw [entries, List.head?_cons]
    by_cases same : first = start
    · rw [if_pos (decide_eq_true same)] at completed
      cases completed
      rw [Sampler.ofTensor, shape, entries] at sampled
      cases sampled
      rw [if_pos (congrArg some same)]
    · rw [if_neg (by simpa using same), entries] at completed
      cases completed
      cases sampled
      rw [if_neg (fun equal => same (Option.some.inj equal))]
      rfl
  · cases completed
  · cases completed
  · -- With several axes the times are handed on, but a sampler does not take them.
    rename_i extents _ shape empty filled
    split at completed
    · split at completed
      · cases completed
        rw [Sampler.ofTensor] at sampled
        split at sampled
        · rename_i line
          obtain rfl : extents = [] := (List.cons.inj (shape.symm.trans line)).2
          rcases entries : rows.entries with _ | ⟨first, rest⟩
          · exact (empty entries rfl).elim
          · exact (filled first rest entries rfl).elim
        · cases sampled
      · cases completed
    · cases completed

/-- Times that have been accepted are in the order of the run, from its start on. -/
theorem rowTimes_ok {rows : Tensor Rat} {sampler : Sampler Rat} (accepted : p.rowTimes times = .ok rows)
    (sampled : Sampler.ofTensor rows = .ok sampler) : sampler = .create (p.wanted times) ∧
      (p.start :: p.wanted times).Pairwise (NotAfter (decide (p.start ≤ p.target))) := by
  cases times with
  | none =>
    cases accepted
    cases sampled
    refine ⟨rfl, ?_⟩
    have along : NotAfter (decide (p.start ≤ p.target)) p.start p.target := by
      by_cases later : p.start ≤ p.target
      · simp [NotAfter, later]
      · simpa [NotAfter, later] using le_of_not_ge later
    simp [wanted, along, NotAfter.refl]
  | some ts =>
    simp only [rowTimes, except_bind_ok, except_guard_ok] at accepted
    obtain ⟨inside, disorder, compared, sorted, completed⟩ := accepted
    obtain ⟨n, line, rfl⟩ := withStart_line completed sampled
    rw [unordered_line line] at compared
    cases compared
    have ordered := ordered_of_disordered (Bool.eq_false_iff.mpr sorted)
    have behind : ∀ t ∈ ts.entries, NotAfter (decide (p.start ≤ p.target)) p.start t := by
      intro t mem
      rw [Bool.or_eq_true, not_or, List.any_eq_true, List.any_eq_true] at inside
      have least := not_lt.mp fun less => inside.1 ⟨t, mem, decide_eq_true less⟩
      have greatest := not_lt.mp fun more => inside.2 ⟨t, mem, decide_eq_true more⟩
      simp only [Scalar.flush_rat, Scalar.smaller_rat, Scalar.larger_rat] at least greatest
      by_cases later : p.start ≤ p.target
      · rw [min_eq_left later] at least
        simpa [NotAfter, later] using least
      · rw [max_eq_left (le_of_not_ge later)] at greatest
        simpa [NotAfter, later] using greatest
    refine ⟨rfl, ?_⟩
    rw [wanted]
    split
    · exact List.pairwise_cons.mpr ⟨behind, ordered⟩
    · apply List.pairwise_cons.mpr
      refine ⟨fun t mem => ?_, List.pairwise_cons.mpr ⟨behind, ordered⟩⟩
      rcases List.mem_cons.mp mem with rfl | mem
      · exact .refl
      · exact behind t mem

/-- An engine for a problem is usable if the settings that come with the handlers are valid. -/
theorem usable_engine {e : Engine ω Rat} (valid : ∀ watch ∈ p.handlers, ∀ settings ∈ watch.2, settings.valid = true)
    (built : p.engine = .ok e) : e.Usable := by
  obtain ⟨bare, created, added⟩ := except_bind_ok.mp built
  have usable := Engine.usable_create created
  generalize p.handlers = watches at valid added
  clear created
  induction watches generalizing bare with
  | nil =>
    cases added
    exact usable
  | cons watch rest ih =>
    obtain ⟨next, registered, added⟩ := except_bind_ok.mp added
    have usable' := Engine.usable_addHandler usable (valid watch List.mem_cons_self) registered
    exact ih next usable' (fun other mem => valid other (List.mem_cons_of_mem watch mem)) added

variable [Spacing Rat] {e e' : Engine ω Rat} {equation : Equation ω Rat} {y : State Rat} {w w' : ω}

omit [Spacing Rat] in
theorem estimate_ok (p : InitialValue ω Rat) : ∃ steps, p.estimate = .ok steps := by
  simp [estimate]

/-- A history whose run returns is the table of its sampler. -/
theorem runFrom_history {rows : Tensor Rat} {sampler : Sampler Rat} (accepted : p.rowTimes times = .ok rows)
    (sampled : Sampler.ofTensor rows = .ok sampler) (system : p.source.toEquation p.y0 = .ok equation)
    (built : p.engine = .ok e) (ran : (Engine.integrate equation p.start p.y0 p.target).runFrom
      (e.addObserver (.sampler sampler), w) = (.ok (t, y), e', w'))
    {others : List (Observer ω Rat)} {o : Observer ω Rat} (observers : e'.observers = others ++ [o]) (verbose : Bool)
    (ns : List (Notice Rat)) : ∃ ns', (p.history times verbose).runFrom (ns, w) = (o.table, ns', w') :=
  history_of_run accepted sampled system built ran observers (fun _ => p.estimate_ok) ns

omit [Spacing Rat] in
theorem start_wanted (p : InitialValue ω Rat) (times : Option (Tensor Rat)) : p.start ∈ p.wanted times := by
  cases times with
  | none => exact List.mem_cons_self
  | some times =>
    rw [wanted]
    split
    · rename_i begins
      exact List.mem_of_mem_head? begins
    · exact List.mem_cons_self

/-- If the run of a history returns, the rows of the history are those of the wanted times that do not lie beyond the
time reached: in their order, each with the state of the one accepted piece in which the time lies, and the initial
state at the start. These pieces are the ones of the run without a sampler, so that the row of a time does not depend
on the other times. The rows make a table, if the right-hand side and the handlers answer for every state of the
right size. -/
theorem history_samples {requested : Tensor Rat} {sampler : Sampler Rat}
    (valid : ∀ watch ∈ p.handlers, ∀ settings ∈ watch.2, settings.valid = true)
    (accepted : p.rowTimes times = .ok requested) (sampled : Sampler.ofTensor requested = .ok sampler)
    (system : p.source.toEquation p.y0 = .ok equation) (built : p.engine = .ok e)
    (ran : (Engine.integrate equation p.start p.y0 p.target).runFrom (e.addObserver (.sampler sampler), w) =
      (.ok (T, y), e', w')) (verbose : Bool) (ns : List (Notice Rat)) :
    ∃ rows others ns', (p.history times verbose).runFrom (ns, w) = (Table.ofRows rows, ns', w') ∧
      Samples (decide (p.start ≤ p.target)) p.start p.y0 T e'.journal.pieces (p.wanted times) rows ∧
      (Engine.integrate equation p.start p.y0 p.target).runFrom (e, w) =
        (.ok (T, y), { e' with observers := others }, w') ∧
      ((∀ x : Rat, 0 ≤ Spacing.ulp x) → e.stepper.scheme ≠ .abstract → equation.Total →
        (∀ watch ∈ e.watches, watch.1.Total equation) →
        Table.ofRows rows = .ok ⟨rows.map Prod.fst, rows.map Prod.snd⟩) := by
  have quiet : (Observer.sampler sampler : Observer ω Rat).Quiet := trivial
  obtain ⟨others, o, observers, bare⟩ := Engine.integrate_addObserver quiet ran
  obtain ⟨rfl, ordered⟩ := rowTimes_ok accepted sampled
  have usable := (usable_engine valid built).addObserver (.sampler (.create (p.wanted times)))
  obtain ⟨following, reached⟩ := Engine.integrate_following usable ran
  have attends := Engine.integrate_attends ran
  have place : e.observers.length = others.length := by
    have same := attends.length_eq
    rw [observers] at same
    simpa [Engine.addObserver] using same
  rw [observers] at attends
  obtain ⟨first, at_, attends⟩ := forall₂_getElem? attends (List.getElem?_concat_length ..)
  obtain rfl : first = .sampler (.create (p.wanted times)) := by
    rw [← place, Engine.addObserver, List.getElem?_concat_length] at at_
    exact (Option.some.inj at_).symm
  obtain ⟨s', rfl, samples⟩ := Sampler.attends attends following ordered
  rw [← reached] at samples
  obtain ⟨ns', solved⟩ := runFrom_history accepted sampled system built ran observers verbose ns
  refine ⟨s'.rows, others, ns', solved, samples, bare, fun gaps implemented total handlers => ?_⟩
  have answering := Engine.pieces_answer gaps usable implemented total handlers ran
  exact samples.table (p.start_wanted times) (reached ▸ following.between.1) answering

/-- A steady run with two timers, the first of which replaces the state, while the second one ends the run. -/
def interrupted : InitialValue Unit Rat where
  source := .equation .steady
  start := 0
  target := 1
  y0 := .ofList [0]
  stepper := ⟨.euler, false⟩
  stepSize := 1 / 2
  handlers := [((SwitchingFunction.timer (1 / 4) .resetState (.ofList [5])).toHandler, some ⟨none, 1 / 100, 100, none⟩),
    ((SwitchingFunction.timer (3 / 4) .stop (.ofList [0])).toHandler, some ⟨none, 1 / 100, 100, none⟩)]
  maxSteps := 100

omit [Spacing Rat] in
/-- The history of the run holds the times up to the second event, also if they are asked for twice, and at the first
event the state before the replacement. -/
theorem history_interrupted :
    letI := Spacing.gapless
    let times : Option (Tensor Rat) := some (.ofList [1 / 4, 1 / 4, 1 / 2, 3 / 4, 1])
    interrupted.wanted times = [0, 1 / 4, 1 / 4, 1 / 2, 3 / 4, 1] ∧ ∃ rows pieces,
      ((interrupted.history times false).runFrom ([], ())).1 = .ok ⟨rows.map Prod.fst, rows.map Prod.snd⟩ ∧
      Samples true 0 (.ofList [0]) (3 / 4) pieces (interrupted.wanted times) rows ∧
      pieces.map (fun (piece, _) => (piece.start, piece.stop)) = [(0, 1 / 4), (1 / 4, 3 / 4)] ∧
      rows.map Prod.fst = [0, 1 / 4, 1 / 4, 1 / 2, 3 / 4] := by
  let := Spacing.gapless
  intro times
  have wanted : interrupted.wanted times = [0, 1 / 4, 1 / 4, 1 / 2, 3 / 4, 1] := by decide +kernel
  let timers : Engine Unit Rat := .timed (1 / 2)
    [(.timer (1 / 4) .resetState (.ofList [5]), ⟨none, 1 / 100, 100, none⟩),
      (.timer (3 / 4) .stop (.ofList [0]), ⟨none, 1 / 100, 100, none⟩)]
  have size : checkStepSize (1 / 2 : Rat) = .ok (1 / 2) := by simp [checkStepSize]
  have built : interrupted.engine = .ok timers := by
    rw [engine, Engine.create, interrupted, size]
    rfl
  have accepted : interrupted.rowTimes times = .ok (.ofList [0, 1 / 4, 1 / 4, 1 / 2, 3 / 4, 1]) := by decide +kernel
  let sampler : Sampler Rat := .create [0, 1 / 4, 1 / 4, 1 / 2, 3 / 4, 1]
  let run := (Engine.integrate .steady 0 (.ofList [0]) 1).runFrom (timers.addObserver (.sampler sampler), ())
  have returned : run.1 = .ok (3 / 4, .ofList [11 / 2]) := by decide +kernel
  have valid : ∀ watch ∈ interrupted.handlers, ∀ settings ∈ watch.2, settings.valid = true := by
    rintro watch (_ | ⟨_, _ | ⟨_, ⟨⟩⟩⟩)
    · rintro _ ⟨⟩
      decide +kernel
    · rintro _ ⟨⟩
      decide +kernel
  have total : Equation.steady.Total :=
    ⟨fun _ _ _ w => ⟨.ofList [1], w, rfl, rfl⟩, fun w => ⟨(), w, rfl, trivial⟩, fun _ _ _ => ⟨.ofList [1], rfl, rfl⟩⟩
  have handlers : ∀ watch ∈ timers.watches, watch.1.Total .steady := by
    rintro watch (_ | ⟨_, _ | ⟨_, ⟨⟩⟩⟩)
    · exact ⟨fun _ _ _ _ w => ⟨(), w, rfl, trivial⟩, fun _ _ _ w => ⟨_, w, rfl, trivial⟩,
        fun _ _ _ _ w => ⟨_, w, rfl, trivial⟩, fun _ _ _ w => ⟨_, w, rfl, rfl⟩⟩
    · exact ⟨fun _ _ _ _ w => ⟨(), w, rfl, trivial⟩, fun _ _ _ w => ⟨_, w, rfl, trivial⟩,
        fun _ _ _ _ w => ⟨_, w, rfl, trivial⟩, fun _ _ _ w => ⟨_, w, rfl, rfl⟩⟩
  obtain ⟨rows, others, ns', solved, samples, _, made⟩ := history_samples valid accepted rfl rfl built
    (Prod.ext returned rfl) false []
  have table := made (fun _ => le_rfl) (by decide) total handlers
  refine ⟨wanted, rows, _, ?_, samples, ?_, ?_⟩
  · rw [solved]
    exact table
  · change run.2.1.journal.pieces.map _ = _
    decide +kernel
  · rw [samples.times, wanted]
    decide +kernel

end InitialValue

end Trajectory
