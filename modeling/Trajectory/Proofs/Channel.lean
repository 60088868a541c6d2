import Mathlib.Tactic
import Trajectory.Event.Channel
import Trajectory.Proofs.Bracket

/-!
Where the root lies that a channel finds.

`Channel.Spans` says what a reported root is: the switching function returned a value other than
zero at a point not before the start, and zero or a value of the other sign at the root, which lies
strictly behind the start and not behind the sample that showed the change. If the switching function
is not zero at the root, the two points are closer to each other than the tolerance. `firstRoot_some`
says this of the reference point and the end of the window; `firstRoot_none` says that a channel which
accepts every crossing and finds none has seen the sign of the reference point at every sample.
-/

namespace Trajectory

variable {ω : Type} {forward : Bool} {g : Rat → Effect ω Rat Rat} {w w' : ω}

theorem Settings.valid_iff {s : Settings Rat} : s.valid = true ↔
    (∀ interval ∈ s.maxCheckInterval, 0 < interval) ∧ 0 < s.convergence ∧ 1 ≤ s.maxIterations ∧
      ∀ window ∈ s.proximity, 0 ≤ window := by
  cases longest : s.maxCheckInterval <;> cases near : s.proximity <;>
    norm_num [Settings.valid, longest, near, and_assoc] <;> simp

namespace Channel

/-- What the switching function is known to be at a point: the given value at the given point, or
what it returned. -/
def Seen (g : Rat → Effect ω Rat Rat) (given value x y : Rat) : Prop :=
  x = given ∧ y = value ∨ (g x).Returns y

/-- A crossing between a start and a sample, with the values that show it. -/
structure Spans (c : Channel ω Rat) (forward : Bool) (g : Rat → Effect ω Rat Rat) (ta ga tb gb : Rat)
    (found : Crossing Rat) : Prop where
  /-- The root lies strictly behind the start. -/
  behind : Precedes forward ta found.root
  /-- The root does not lie behind the sample. -/
  reached : NotAfter forward found.root tb
  /-- The switching function was not zero at a point before the root, and its sign there tells the
  direction; at the root it was zero, or of the other sign and the point is close. -/
  signs : ∃ x gx, NotAfter forward ta x ∧ NotAfter forward x found.root ∧ Seen g ta ga x gx ∧ gx ≠ 0 ∧
    found.increasing = decide (gx < 0) ∧ ∃ y, Seen g tb gb found.root y ∧ (y = 0 ∨ (0 < y ↔ gx < 0) ∧
      |found.root - x| < c.settings.convergence + relativeTolerance * max |found.root| |x|)

theorem crosses_iff {ga gb : Rat} : crosses ga gb = true ↔ ga ≠ 0 ∧ (gb = 0 ∨ (0 < gb ↔ ga < 0)) := by
  simp only [crosses, Scalar.isZero_rat, Scalar.isPositive_rat, Bool.and_eq_true, Bool.not_eq_true',
    decide_eq_false_iff_not, Bool.or_eq_true, decide_eq_true_eq, bne_iff_ne, ne_eq, decide_eq_decide]
  refine and_congr_right fun start => or_congr_right ?_
  rcases lt_or_gt_of_ne start with neg | pos
  · simp [neg, neg.not_gt]
  · simp [pos, pos.not_gt]

variable {c : Channel ω Rat} {ta ga tb gb : Rat} {found : Crossing Rat}

/-- A channel that watches for one direction accepts no other. -/
theorem wants_iff (accepted : c.accepts found = true) (directed : c.handler.direction ≠ 0) :
    found.increasing = true ↔ 0 < c.handler.direction := by
  simp only [accepts, Handler.wants, Bool.and_eq_true, Bool.or_eq_true, beq_iff_eq] at accepted
  rw [accepted.2.resolve_left directed, decide_eq_true_eq]

/-- A start on a zero moves ahead, but not past the second sample. -/
theorem offset_inside (valid : c.settings.valid = true) (ahead : Precedes forward ta tb) :
    let offset := min c.settings.convergence |tb - ta|
    Precedes forward ta (if forward then ta + offset else ta - offset) ∧
      NotAfter forward (if forward then ta + offset else ta - offset) tb := by
  have positive : 0 < min c.settings.convergence |tb - ta| :=
    lt_min (Settings.valid_iff.mp valid).2.1 (abs_pos.mpr (sub_ne_zero.mpr ahead.ne.symm))
  have short : min c.settings.convergence |tb - ta| ≤ |tb - ta| := min_le_right _ _
  cases forward
  · have way : |tb - ta| = ta - tb := by rw [abs_sub_comm, abs_of_pos (sub_pos.mpr ahead)]
    exact ⟨sub_lt_self ta positive, (by linarith : tb ≤ ta - min c.settings.convergence |tb - ta|)⟩
  · have way : |tb - ta| = tb - ta := abs_of_pos (sub_pos.mpr ahead)
    exact ⟨lt_add_of_pos_right ta positive, (by linarith : ta + min c.settings.convergence |tb - ta| ≤ tb)⟩

theorem nudged_eq (ahead : Precedes forward ta tb) : c.nudged forward g ta ga tb =
    if ga = 0 then do
      let ta := if forward then ta + min c.settings.convergence |tb - ta| else ta - min c.settings.convergence |tb - ta|
      let ga ← g ta
      return (ta, ga)
    else pure (ta, ga) := by
  have apart : (ta == tb) = false := beq_eq_false_iff_ne.mpr ahead.ne
  simp only [nudged, Scalar.isZero_rat, apart, Bool.not_false, Bool.and_true, decide_eq_true_eq,
    Scalar.smaller_rat, Scalar.abs_rat]

/-- The search between two samples starts at the first one, or on the way to the second if the first
is a zero. -/
theorem nudged_ok (valid : c.settings.valid = true) (ahead : Precedes forward ta tb) {x gx : Rat}
    (ran : (c.nudged forward g ta ga tb).runFrom w = (.ok (x, gx), w')) :
    x = ta ∧ gx = ga ∧ ga ≠ 0 ∨
      Precedes forward ta x ∧ NotAfter forward x tb ∧ (g x).Returns gx ∧ ga = 0 := by
  rw [nudged_eq ahead] at ran
  by_cases zero : ga = 0
  · rw [if_pos zero, Effect.runFrom_bind_ok] at ran
    obtain ⟨v, u, value, ran⟩ := ran
    rw [Effect.runFrom_pure] at ran
    cases ran
    obtain ⟨behind, reached⟩ := offset_inside valid ahead
    exact Or.inr ⟨behind, reached, Effect.returns_of_runFrom value, zero⟩
  · rw [if_neg zero, Effect.runFrom_pure] at ran
    cases ran
    exact Or.inl ⟨rfl, rfl, zero⟩

theorem nudged_place (valid : c.settings.valid = true) (ahead : Precedes forward ta tb) {x gx : Rat}
    (ran : (c.nudged forward g ta ga tb).runFrom w = (.ok (x, gx), w')) :
    NotAfter forward ta x ∧ NotAfter forward x tb ∧ (x = tb → Precedes forward ta x) ∧ Seen g ta ga x gx := by
  rcases nudged_ok valid ahead ran with ⟨rfl, rfl, _⟩ | ⟨behind, reached, returned, _⟩
  · exact ⟨.refl, ahead.notAfter, fun same => absurd same ahead.ne, Or.inl ⟨rfl, rfl⟩⟩
  · exact ⟨behind.notAfter, reached, fun _ => behind, Or.inr returned⟩

theorem inside_precedes {x z r : Rat} (reached : NotAfter forward x z) (inside : Inside x z r) :
    Precedes forward x r ∧ Precedes forward r z := by
  cases forward
  · exact inside.elim (fun up => absurd reached (up.1.trans up.2).not_ge) fun down => ⟨down.2, down.1⟩
  · exact inside.elim (fun up => ⟨up.1, up.2⟩) fun down => absurd reached (down.1.trans down.2).not_ge

private theorem solve_spans (valid : c.settings.valid = true) {x gx r : Rat}
    (before : NotAfter forward ta x) (reached : NotAfter forward x tb)
    (last : x = tb → Precedes forward ta x) (seen : Seen g ta ga x gx) (crossing : crosses gx gb = true)
    (ran : (c.settings.search.solve g x tb (some gx) (some gb)).runFrom w = (.ok r, w')) :
    c.Spans forward g ta ga tb gb ⟨r, Scalar.isNegative gx⟩ := by
  obtain ⟨start, change⟩ := crosses_iff.mp crossing
  obtain ⟨place, z, gz, y, near, agrees, atRoot, side⟩ :=
    RootSearch.solve_answer (Settings.valid_iff.mp valid).2.1 start change ran
  have same : gx < 0 ↔ gz < 0 := by
    rcases pos_and_pos_or_neg_and_neg_of_mul_pos agrees with ⟨posZ, posX⟩ | ⟨negZ, negX⟩
    · exact iff_of_false posX.not_gt posZ.not_gt
    · exact iff_of_true negX negZ
  have ahead : NotAfter forward x r ∧ Precedes forward ta r ∧ NotAfter forward r tb := by
    rcases place with rfl | ⟨inside, _⟩
    · refine ⟨reached, ?_, .refl⟩
      by_cases point : x = r
      · exact point ▸ last point
      · exact before.trans_precedes (reached.precedes_of_ne point)
    · obtain ⟨up, down⟩ := inside_precedes reached inside
      exact ⟨up.notAfter, before.trans_precedes up, down.notAfter⟩
  have place' : NotAfter forward ta z ∧ NotAfter forward z r ∧ Seen g ta ga z gz := by
    rcases near with ⟨rfl, rfl⟩ | ⟨inside, returned⟩
    · exact ⟨before, ahead.1, seen⟩
    · obtain ⟨up, down⟩ := inside_precedes ahead.1 inside
      exact ⟨before.trans up.notAfter, down.notAfter, Or.inr returned⟩
  have nonzero : gz ≠ 0 := left_ne_zero_of_mul agrees.ne'
  refine ⟨ahead.2.1, ahead.2.2, z, gz, place'.1, place'.2.1, place'.2.2, nonzero, ?_, y, atRoot, ?_⟩
  · simp only [Scalar.isNegative_rat, same]
  · refine side.imp_right fun ⟨opposite, close⟩ => ⟨?_, close⟩
    rw [← same]
    rcases mul_neg_iff.mp opposite with ⟨posY, negX⟩ | ⟨negY, posX⟩
    · exact iff_of_true posY negX
    · exact iff_of_false negY.not_gt posX.not_gt

private theorem Spans.later {root gRoot : Rat} (first : Precedes forward ta root)
    (returned : (g root).Returns gRoot) (h : c.Spans forward g root gRoot tb gb found) :
    c.Spans forward g ta ga tb gb found := by
  obtain ⟨x, gx, before, reached, seen, rest⟩ := h.signs
  refine ⟨first.trans h.behind, h.reached, x, gx, first.notAfter.trans before, reached, ?_, rest⟩
  rcases seen with ⟨rfl, rfl⟩ | seen
  · exact Or.inr returned
  · exact Or.inr seen

/-- What the search between two samples reports is an accepted crossing between them. -/
theorem between_crossing (valid : c.settings.valid = true) (ahead : Precedes forward ta tb) {rounds : Nat}
    (ran : (c.between forward g tb gb rounds ta ga).runFrom w = (.ok (.crossing found), w')) :
    c.accepts found = true ∧ c.Spans forward g ta ga tb gb found := by
  induction rounds generalizing ta ga w with
  | zero => simp [between] at ran
  | succ rounds ih =>
    rw [between, Effect.runFrom_bind_ok] at ran
    obtain ⟨⟨x, gx⟩, w₁, start, ran⟩ := ran
    obtain ⟨before, reached, last, seen⟩ := nudged_place valid ahead start
    by_cases crossing : crosses gx gb = true
    · simp only [crossing, ↓reduceIte, Effect.runFrom_bind_ok] at ran
      obtain ⟨root, w₂, solved, ran⟩ := ran
      have spans := solve_spans valid before reached last seen crossing solved
      by_cases accepted : c.accepts ⟨root, Scalar.isNegative gx⟩ = true
      · simp only [accepted, ↓reduceIte, Effect.runFrom_pure] at ran
        cases ran
        exact ⟨accepted, spans⟩
      · simp only [accepted, Bool.false_eq_true, ↓reduceIte, Effect.runFrom_bind_ok] at ran
        obtain ⟨gRoot, w₃, value, ran⟩ := ran
        by_cases atSample : root = tb
        · simp [atSample] at ran
        · simp only [beq_iff_eq, atSample, ↓reduceIte] at ran
          obtain ⟨taken, later⟩ := ih (spans.reached.precedes_of_ne atSample) ran
          exact ⟨taken, later.later spans.behind (Effect.returns_of_runFrom value)⟩
    · simp [crossing] at ran

/-- A channel that accepts every crossing and reports none has seen one sign from the start to the
sample, unless the start is a zero. -/
theorem between_clear (valid : c.settings.valid = true) (ahead : Precedes forward ta tb)
    (accepting : ∀ found, c.accepts found = true) {rounds : Nat} (start : ga ≠ 0)
    (ran : (c.between forward g tb gb rounds ta ga).runFrom w = (.ok .clear, w')) :
    gb ≠ 0 ∧ (0 < gb ↔ 0 < ga) := by
  cases rounds with
  | zero => simp [between] at ran
  | succ rounds =>
    rw [between, Effect.runFrom_bind_ok] at ran
    obtain ⟨⟨x, gx⟩, w₁, nudged, ran⟩ := ran
    rcases nudged_ok valid ahead nudged with ⟨rfl, rfl, _⟩ | ⟨_, _, _, zero⟩
    · by_cases crossing : crosses gx gb = true
      · simp only [crossing, ↓reduceIte, Effect.runFrom_bind_ok] at ran
        obtain ⟨root, w₂, _, ran⟩ := ran
        simp [accepting] at ran
      · rw [crosses_iff] at crossing
        push Not at crossing
        obtain ⟨sample, sign⟩ := crossing start
        refine ⟨sample, ?_⟩
        rcases sign with ⟨pos, notNeg⟩ | ⟨notPos, neg⟩
        · exact ⟨fun _ => lt_of_le_of_ne notNeg (Ne.symm start), fun _ => pos⟩
        · exact ⟨fun pos => absurd pos notPos.not_gt, fun pos => absurd pos neg.not_gt⟩
    · exact absurd zero start

/-- Samples in the order of a run, from a start. -/
def Ascending (forward : Bool) (ta : Rat) (samples : List Rat) : Prop :=
  (ta :: samples).Pairwise (Precedes forward)

/-- What the search through some samples reports is an accepted crossing before one of them, behind
the start. -/
theorem through_crossing (valid : c.settings.valid = true) {samples : List Rat}
    (ascending : Ascending forward ta samples)
    (ran : (c.through forward g samples ta ga).runFrom w = (.ok (some found), w')) :
    ∃ tb ∈ samples, ∃ gb, (g tb).Returns gb ∧ c.accepts found = true ∧
      c.Spans forward g ta ga tb gb found := by
  induction samples generalizing ta ga w with
  | nil => simp [through] at ran
  | cons tb rest ih =>
    have first : Precedes forward ta tb := List.rel_of_pairwise_cons ascending List.mem_cons_self
    rw [through, Effect.runFrom_bind_ok] at ran
    obtain ⟨gb, w₁, value, ran⟩ := ran
    have returned := Effect.returns_of_runFrom value
    rw [Effect.runFrom_bind_ok] at ran
    obtain ⟨finding, w₂, searched, ran⟩ := ran
    cases finding with
    | crossing located =>
      simp only [Effect.runFrom_pure, Prod.mk.injEq, Except.ok.injEq, Option.some.injEq] at ran
      obtain ⟨rfl, _⟩ := ran
      obtain ⟨taken, spans⟩ := between_crossing valid first searched
      exact ⟨tb, List.mem_cons_self, gb, returned, taken, spans⟩
    | clear =>
      obtain ⟨sample, mem, gs, value', taken, spans⟩ := ih ascending.of_cons ran
      exact ⟨sample, List.mem_cons_of_mem tb mem, gs, value', taken, spans.later first returned⟩

/-- A channel that accepts every crossing and reports none sees the sign of the start at every
sample. -/
theorem through_clear (valid : c.settings.valid = true) (accepting : ∀ found, c.accepts found = true)
    {samples : List Rat} (ascending : Ascending forward ta samples) (start : ga ≠ 0)
    (ran : (c.through forward g samples ta ga).runFrom w = (.ok none, w')) :
    ∀ s ∈ samples, ∃ gs, (g s).Returns gs ∧ gs ≠ 0 ∧ (0 < gs ↔ 0 < ga) := by
  induction samples generalizing ta ga w with
  | nil => exact fun _ mem => absurd mem List.not_mem_nil
  | cons tb rest ih =>
    have first : Precedes forward ta tb := List.rel_of_pairwise_cons ascending List.mem_cons_self
    rw [through, Effect.runFrom_bind_ok] at ran
    obtain ⟨gb, w₁, value, ran⟩ := ran
    rw [Effect.runFrom_bind_ok] at ran
    obtain ⟨finding, w₂, searched, ran⟩ := ran
    cases finding with
    | crossing located => simp at ran
    | clear =>
      obtain ⟨sample, sign⟩ := between_clear valid first accepting start searched
      intro s mem
      rcases List.mem_cons.mp mem with rfl | mem
      · exact ⟨gb, Effect.returns_of_runFrom value, sample, sign⟩
      · obtain ⟨gs, returned, nonzero, same⟩ := ih ascending.of_cons sample ran s mem
        exact ⟨gs, returned, nonzero, same.trans sign⟩

theorem intervals_pos {stop : Rat} {n : Nat} (counted : c.intervals stop = .ok n) : 0 < n := by
  unfold intervals at counted
  split at counted
  · simp only [Scalar.isFinite_rat, ↓reduceIte, Except.ok.injEq] at counted
    omega
  · simp only [Scalar.isUndefined_rat, Scalar.isFinite_rat, Bool.not_true, Bool.false_eq_true,
      ↓reduceIte, Except.ok.injEq] at counted
    omega

/-- One of the ends of `n` equal intervals between the reference point and another time, counted from the reference
point. -/
def sample (c : Channel ω Rat) (stop : Rat) (n k : Nat) : Rat := c.tRef + k * ((stop - c.tRef) / n)

theorem sample_zero (c : Channel ω Rat) (stop : Rat) (n : Nat) : c.sample stop n 0 = c.tRef := by
  simp [sample]

theorem sample_last (c : Channel ω Rat) (stop : Rat) {n : Nat} (positive : 0 < n) : c.sample stop n n = stop := by
  have count : (n : Rat) ≠ 0 := Nat.cast_ne_zero.mpr positive.ne'
  rw [sample, mul_div_cancel₀ _ count]
  ring

theorem sample_sub (c : Channel ω Rat) (stop : Rat) (n j k : Nat) :
    c.sample stop n k - c.sample stop n j = (k - j) * ((stop - c.tRef) / n) := by
  simp only [sample]
  ring

/-- The reference point and the samples behind it are the ends of the intervals. -/
theorem samples_eq (c : Channel ω Rat) (stop : Rat) {n : Nat} (positive : 0 < n) :
    c.tRef :: c.samples stop n = (List.range (n + 1)).map (c.sample stop n) := by
  obtain ⟨m, rfl⟩ := Nat.exists_eq_succ_of_ne_zero positive.ne'
  have last := c.sample_last stop positive
  rw [List.range_succ_eq_map, List.map_cons, sample_zero, List.range_succ, List.map_append, List.map_append]
  simp only [List.map_cons, List.map_nil, last, List.map_map]
  rfl

/-- Along the run the samples are in order. -/
theorem sample_precedes {stop : Rat} {n j k : Nat} (positive : 0 < n) (ahead : Precedes forward c.tRef stop)
    (less : j < k) : Precedes forward (c.sample stop n j) (c.sample stop n k) := by
  have count : (0 : Rat) < n := Nat.cast_pos.mpr positive
  have distance : 0 < runSign forward * ((stop - c.tRef) / n) := by
    rw [precedes_iff_sign] at ahead
    rw [mul_div_assoc', div_pos_iff_of_pos_right count]
    linarith
  have steps : (0 : Rat) < k - j := sub_pos.mpr (Nat.cast_lt.mpr less)
  have way : 0 < runSign forward * (c.sample stop n k - c.sample stop n j) := by
    rw [sample_sub, mul_left_comm]
    exact mul_pos steps distance
  rw [precedes_iff_sign]
  linarith

/-- The samples lead from the reference point to the end of the window. -/
theorem samples_ascending {stop : Rat} {n : Nat} (positive : 0 < n) (ahead : Precedes forward c.tRef stop) :
    Ascending forward c.tRef (c.samples stop n) := by
  rw [Ascending, samples_eq c stop positive]
  exact List.pairwise_map.mpr (List.pairwise_lt_range.imp fun less => sample_precedes positive ahead less)

/-- Neighbouring samples are as far apart as the intervals are long. -/
theorem abs_sample_sub (c : Channel ω Rat) (stop : Rat) (n k : Nat) :
    |c.sample stop n (k + 1) - c.sample stop n k| = |stop - c.tRef| / n := by
  have one : ((k + 1 : Nat) : Rat) - k = 1 := by push_cast; ring
  rw [sample_sub, one, one_mul, abs_div, Nat.abs_cast]

theorem samples_near {stop : Rat} {n : Nat} (positive : 0 < n) :
    (c.tRef :: c.samples stop n).IsChain fun s t => |t - s| ≤ |stop - c.tRef| / n := by
  rw [samples_eq c stop positive, List.isChain_map, List.isChain_range_succ]
  exact fun k _ => (c.abs_sample_sub stop n k).le

theorem samples_notAfter {stop : Rat} {n : Nat} (ascending : Ascending forward ta (c.samples stop n)) :
    ∀ s ∈ c.samples stop n, NotAfter forward s stop := by
  intro s mem
  rcases List.mem_append.mp mem with inner | last
  · exact ((List.pairwise_append.mp ascending.of_cons).2.2 s inner stop List.mem_cons_self).notAfter
  · rw [List.mem_singleton.mp last]
    exact .refl

theorem stop_mem_samples {stop : Rat} {n : Nat} : stop ∈ c.samples stop n :=
  List.mem_append_right _ List.mem_cons_self

variable [Spacing Rat] {window : Window Rat}

theorem firstRoot_through {result : Option (Crossing Rat)} (ahead : Precedes forward c.tRef window.stop)
    (ran : (c.firstRoot forward window).runFrom w = (.ok result, w')) :
    ∃ n, c.intervals window.stop = .ok n ∧
      (c.through forward (c.along window) (c.samples window.stop n) c.tRef c.gRef).runFrom w = (.ok result, w') := by
  unfold firstRoot at ran
  simp only [isAfter_iff.mpr ahead, Bool.not_true, Bool.false_eq_true, ↓reduceIte,
    Effect.runFrom_bind_ok, Effect.runFrom_lift_iff] at ran
  obtain ⟨n, _, ⟨counted, rfl⟩, ran⟩ := ran
  exact ⟨n, counted, ran⟩

/-- The root that a channel reports is an accepted crossing strictly behind the reference point and
not behind the end of the window. -/
theorem firstRoot_some (valid : c.settings.valid = true)
    (ran : (c.firstRoot forward window).runFrom w = (.ok (some found), w')) :
    c.accepts found = true ∧ ∃ tb gb, NotAfter forward tb window.stop ∧ (c.along window tb).Returns gb ∧
      c.Spans forward (c.along window) c.tRef c.gRef tb gb found := by
  by_cases ahead : Precedes forward c.tRef window.stop
  · obtain ⟨n, counted, ran⟩ := firstRoot_through ahead ran
    have ascending := samples_ascending (intervals_pos counted) ahead
    obtain ⟨tb, mem, gb, returned, taken, spans⟩ := through_crossing valid ascending ran
    exact ⟨taken, tb, gb, samples_notAfter ascending tb mem, returned, spans⟩
  · have passed : isAfter forward window.stop c.tRef = false := Bool.eq_false_iff.mpr fun h => ahead (isAfter_iff.mp h)
    simp [firstRoot, passed] at ran

/-- A channel that accepts every crossing and reports none has seen the sign of the reference point
at the end of the window. -/
theorem firstRoot_none (valid : c.settings.valid = true) (accepting : ∀ found, c.accepts found = true)
    (ahead : Precedes forward c.tRef window.stop) (start : c.gRef ≠ 0)
    (ran : (c.firstRoot forward window).runFrom w = (.ok none, w')) :
    ∃ gb, (c.along window window.stop).Returns gb ∧ gb ≠ 0 ∧ (0 < gb ↔ 0 < c.gRef) := by
  obtain ⟨n, counted, ran⟩ := firstRoot_through ahead ran
  exact through_clear valid accepting (samples_ascending (intervals_pos counted) ahead) start ran _ stop_mem_samples

end Channel

end Trajectory
