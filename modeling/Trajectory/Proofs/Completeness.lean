import Mathlib.Tactic
import Trajectory.Proofs.Isolation
import Trajectory.Proofs.Part
import Trajectory.Proofs.Timer

/-!
Which roots the search of a channel cannot miss.

The switching function is a function of time here (`Channel.Traces`). The search between two samples takes the value
at the first of them, or just ahead of it if that is zero (`Channel.lead`), and reports a root if this value and the
one at the second sample show a change of sign in a wanted direction (`Channel.Shows`). A search through all samples
therefore ends in the first interval that shows such a change, or in an earlier one where it has met another wanted
root on the way (`Channel.Locates`). `firstRoot_complete` reads off what that means for the values at the samples,
and for a function that keeps its sign on a part of the window that is longer than the intervals.
-/

namespace Trajectory

variable {ω : Type} {forward : Bool} {w w' : ω}

namespace Channel

variable {c : Channel ω Rat} {G : Rat → Rat} {g : Rat → Effect ω Rat Rat} {ta tb stop : Rat} {n : Nat}

/-- Where the search between two samples starts: at the first of them, or, if the function is zero there, ahead of it
by the tolerance, but not past the second. -/
def lead (c : Channel ω Rat) (forward : Bool) (G : Rat → Rat) (ta tb : Rat) : Rat :=
  if G ta = 0 then
    if forward then ta + min c.settings.convergence |tb - ta| else ta - min c.settings.convergence |tb - ta|
  else ta

/-- The values that the search compares: those at the samples, and that where the search starts. -/
def level (c : Channel ω Rat) (forward : Bool) (G : Rat → Rat) (stop : Rat) (n : Nat) : Nat → Rat
  | 0 => G (c.lead forward G c.tRef (c.sample stop n 1))
  | k + 1 => G (c.sample stop n (k + 1))

/-- The values at two samples show a change of sign in a direction that the handler wants. -/
def Shows (c : Channel ω Rat) (forward : Bool) (G : Rat → Rat) (ta tb : Rat) : Prop :=
  crosses (G (c.lead forward G ta tb)) (G tb) = true ∧
    c.handler.wants (decide (G (c.lead forward G ta tb) < 0)) = true

/-- What the search through the samples behind one of them reports. -/
def Locates (c : Channel ω Rat) (forward : Bool) (G : Rat → Rat) (stop : Rat) (n k : Nat) :
    Option (Crossing Rat) → Prop
  | none => ∀ j, k ≤ j → j < n → ¬ c.Shows forward G (c.sample stop n j) (c.sample stop n (j + 1))
  | some found => ∃ j, k ≤ j ∧ j < n ∧
      (∀ i, k ≤ i → i < j → ¬ c.Shows forward G (c.sample stop n i) (c.sample stop n (i + 1))) ∧
      crosses (G (c.lead forward G (c.sample stop n j) (c.sample stop n (j + 1)))) (G (c.sample stop n (j + 1))) = true ∧
      Precedes forward (c.sample stop n j) found.root ∧ NotAfter forward found.root (c.sample stop n (j + 1)) ∧
      c.accepts found = true

theorem crosses_iff_mul {ga gb : Rat} : crosses ga gb = true ↔ ga ≠ 0 ∧ gb * ga ≤ 0 := by
  rw [crosses_iff]
  refine and_congr_right fun start => ?_
  by_cases zero : gb = 0
  · simp [zero]
  constructor
  · intro crossing
    exact (mul_neg_of_opposite start zero (crossing.resolve_left zero)).le
  · intro product
    have change : ga * gb < 0 := lt_of_le_of_ne (by rwa [mul_comm]) (mul_ne_zero start zero)
    exact Or.inr (opposite_of_mul_neg change)

theorem accepts_of_wants (armed : c.armed = true) (found : Crossing Rat)
    (wanted : c.handler.wants found.increasing = true) : c.accepts found = true := by
  simp [accepts, armed, wanted]

section

variable (valid : c.settings.valid = true) (ahead : Precedes forward ta tb)
  (computes : ∀ t, NotAfter forward ta t → NotAfter forward t tb → (g t).Yields (· = G t))

include valid ahead computes

theorem nudged_lead {x gx : Rat} (ran : (c.nudged forward g ta (G ta) tb).runFrom w = (.ok (x, gx), w')) :
    x = c.lead forward G ta tb ∧ gx = G (c.lead forward G ta tb) := by
  rw [nudged_eq ahead] at ran
  by_cases zero : G ta = 0
  · rw [if_pos zero, Effect.runFrom_bind_ok] at ran
    obtain ⟨y, v, value, ran⟩ := ran
    rw [Effect.runFrom_pure] at ran
    cases ran
    obtain ⟨behind, reached⟩ := offset_inside valid ahead
    have start : c.lead forward G ta tb = _ := if_pos zero
    rw [start]
    exact ⟨rfl, (computes _ behind.notAfter reached).of_returns (Effect.returns_of_runFrom value)⟩
  · rw [if_neg zero, Effect.runFrom_pure] at ran
    cases ran
    have start : c.lead forward G ta tb = ta := if_neg zero
    rw [start]
    exact ⟨rfl, rfl⟩

/-- An armed channel reports a root between two samples that show one. -/
theorem between_shown (armed : c.armed = true) {rounds : Nat} {finding : Finding Rat}
    (ran : (c.between forward g tb (G tb) rounds ta (G ta)).runFrom w = (.ok finding, w')) :
    match finding with
    | .clear => ¬ c.Shows forward G ta tb
    | .crossing _ => crosses (G (c.lead forward G ta tb)) (G tb) = true := by
  cases rounds with
  | zero => simp [between] at ran
  | succ rounds =>
    rw [between, Effect.runFrom_bind_ok] at ran
    obtain ⟨⟨x, gx⟩, w₁, nudged, ran⟩ := ran
    obtain ⟨rfl, rfl⟩ := nudged_lead valid ahead computes nudged
    by_cases crossing : crosses (G (c.lead forward G ta tb)) (G tb) = true
    · simp only [crossing, ↓reduceIte, Effect.runFrom_bind_ok] at ran
      obtain ⟨root, w₂, _, ran⟩ := ran
      cases finding with
      | crossing found => exact crossing
      | clear =>
        rintro ⟨_, wanted⟩
        have accepted : c.accepts ⟨root, decide (G (c.lead forward G ta tb) < 0)⟩ = true :=
          accepts_of_wants armed _ wanted
        simp [accepted] at ran
    · cases finding with
      | crossing found => simp [crossing] at ran
      | clear => exact fun shown => crossing shown.1

end

theorem sample_notAfter (positive : 0 < n) (ahead : Precedes forward c.tRef stop) {j k : Nat} (order : j ≤ k) :
    NotAfter forward (c.sample stop n j) (c.sample stop n k) := by
  rcases Nat.eq_or_lt_of_le order with rfl | less
  · exact .refl
  · exact (sample_precedes positive ahead less).notAfter

/-- Every sample lies between the reference point and the end of the window. -/
theorem sample_inside (positive : 0 < n) (ahead : Precedes forward c.tRef stop) {k : Nat} (last : k ≤ n) :
    NotAfter forward c.tRef (c.sample stop n k) ∧ NotAfter forward (c.sample stop n k) stop := by
  have begun := sample_notAfter positive ahead (Nat.zero_le k)
  have reached := sample_notAfter positive ahead last
  rw [sample_zero] at begun
  rw [sample_last _ _ positive] at reached
  exact ⟨begun, reached⟩

/-- A time behind the reference point lies just before one of the samples. -/
theorem exists_sample (positive : 0 < n) (ahead : Precedes forward c.tRef stop) {p q : Rat}
    (behind : Precedes forward c.tRef p) (order : NotAfter forward p q) (reached : NotAfter forward q stop)
    (long : |stop - c.tRef| / n ≤ |q - p|) :
    ∃ k < n, NotAfter forward p (c.sample stop n (k + 1)) ∧ NotAfter forward (c.sample stop n (k + 1)) q := by
  have final : NotAfter forward p (c.sample stop n (n - 1 + 1)) := by
    rw [Nat.sub_add_cancel positive, c.sample_last stop positive]
    exact order.trans reached
  have reaches : ∃ k, NotAfter forward p (c.sample stop n (k + 1)) := ⟨n - 1, final⟩
  have least : Precedes forward (c.sample stop n (Nat.find reaches)) p := by
    cases found : Nat.find reaches with
    | zero => rwa [c.sample_zero]
    | succ k => exact not_notAfter.mp (Nat.find_min reaches (by omega))
  have bound := Nat.find_min' reaches final
  refine ⟨Nat.find reaches, by omega, Nat.find_spec reaches, ?_⟩
  have step := (sample_precedes positive ahead (Nat.lt_succ_self (Nat.find reaches))).notAfter.abs_sub
  rw [abs_sample_sub] at step
  rw [order.abs_sub] at long
  rw [precedes_iff_sign] at least
  rw [notAfter_iff_sign]
  linarith

/-- The value that the search starts from, unless it is zero. -/
theorem apply_lead {k : Nat} (start : c.level forward G stop n k ≠ 0) :
    G (c.lead forward G (c.sample stop n k) (c.sample stop n (k + 1))) = c.level forward G stop n k := by
  cases k with
  | zero => rw [c.sample_zero, level]
  | succ k => rw [lead, if_neg (show G (c.sample stop n (k + 1)) ≠ 0 from start), level]

/-- The search does not start from the other sign than that of the reference point. -/
theorem level_start (c : Channel ω Rat) (forward : Bool) (G : Rat → Rat) (stop : Rat) (n : Nat) :
    0 ≤ G c.tRef * c.level forward G stop n 0 := by
  by_cases zero : G c.tRef = 0
  · rw [zero, zero_mul]
  · rw [level, lead, if_neg zero]
    exact mul_self_nonneg _

/-- Whether two neighbouring levels show a change of sign. -/
theorem crosses_level {k : Nat} (start : c.level forward G stop n k ≠ 0) :
    crosses (G (c.lead forward G (c.sample stop n k) (c.sample stop n (k + 1)))) (G (c.sample stop n (k + 1))) = true ↔
      c.level forward G stop n (k + 1) * c.level forward G stop n k ≤ 0 := by
  rw [crosses_iff_mul, apply_lead start, level]
  exact and_iff_right start

section

variable (undirected : c.handler.direction = 0) (start : c.level forward G stop n 0 ≠ 0)

include start

/-- As long as all samples have the sign of the start, so does the level that is compared with the next. -/
theorem level_agrees {k : Nat} (agree : ∀ j < k, 0 < c.level forward G stop n (j + 1) * c.level forward G stop n 0) :
    0 < c.level forward G stop n k * c.level forward G stop n 0 := by
  cases k with
  | zero => exact mul_self_pos.mpr start
  | succ k => exact agree k (Nat.lt_succ_self k)

/-- The first sample without the sign of the start is where the search sees a change of sign. -/
theorem crosses_iff_disagrees {k : Nat}
    (agree : ∀ j < k, 0 < c.level forward G stop n (j + 1) * c.level forward G stop n 0) :
    crosses (G (c.lead forward G (c.sample stop n k) (c.sample stop n (k + 1)))) (G (c.sample stop n (k + 1))) = true ↔
      c.level forward G stop n (k + 1) * c.level forward G stop n 0 ≤ 0 := by
  have same := level_agrees start agree
  rw [crosses_level (left_ne_zero_of_mul same.ne')]
  constructor
  · intro change
    by_contra! kept
    exact (mul_pos_of_mul_pos kept (by linarith)).not_ge change
  · intro change
    by_contra! kept
    exact (mul_pos_of_mul_pos kept same).not_ge change

include undirected

theorem shows_iff_disagrees {k : Nat}
    (agree : ∀ j < k, 0 < c.level forward G stop n (j + 1) * c.level forward G stop n 0) :
    c.Shows forward G (c.sample stop n k) (c.sample stop n (k + 1)) ↔
      c.level forward G stop n (k + 1) * c.level forward G stop n 0 ≤ 0 := by
  have wanted : ∀ increasing, c.handler.wants increasing = true := by simp [Handler.wants, undirected]
  rw [Shows, crosses_iff_disagrees start agree]
  exact and_iff_left (wanted _)

/-- A channel that takes both directions passes over the samples that have the sign of the start. -/
theorem not_shows_iff {k : Nat} :
    (∀ j < k, ¬ c.Shows forward G (c.sample stop n j) (c.sample stop n (j + 1))) ↔
      ∀ j < k, 0 < c.level forward G stop n (j + 1) * c.level forward G stop n 0 := by
  induction k with
  | zero => simp
  | succ k ih =>
    simp only [Nat.forall_lt_succ_right, ih]
    refine and_congr_right fun agree => ?_
    rw [shows_iff_disagrees undirected start agree, not_le]

end

/-- No interval is longer than permitted. -/
theorem interval_short (valid : c.settings.valid = true) (counted : c.intervals stop = .ok n) :
    ∀ longest ∈ c.settings.maxCheckInterval, |stop - c.tRef| / n ≤ longest := by
  intro longest permitted
  have positive : 0 < longest := (Settings.valid_iff.mp valid).1 longest permitted
  have count : (0 : Rat) < n := Nat.cast_pos.mpr (intervals_pos counted)
  have bound : |stop - c.tRef| / longest ≤ n := by
    have many : max 1 (|stop - c.tRef| / longest).ceil.toNat = n := by
      unfold intervals at counted
      rw [Option.mem_def.mp permitted] at counted
      simpa [Scalar.ceil] using counted
    have whole : ((|stop - c.tRef| / longest).ceil : Rat) ≤ n := by
      rw [← many]
      exact_mod_cast (Int.self_le_toNat _).trans (by exact_mod_cast le_max_right _ _)
    exact Rat.le_ceil.trans whole
  rw [div_le_iff₀ count, mul_comm]
  exact (div_le_iff₀ positive).mp bound

/-- What the search of a channel reports, in terms of the values at the samples. -/
structure Complete (c : Channel ω Rat) (forward : Bool) (G : Rat → Rat) (stop : Rat) (n : Nat)
    (result : Option (Crossing Rat)) : Prop where
  /-- A channel for both directions reports nothing exactly if every sample has the sign of the start. -/
  silent : c.handler.direction = 0 → c.level forward G stop n 0 ≠ 0 →
    (result = none ↔ ∀ k < n, 0 < c.level forward G stop n (k + 1) * c.level forward G stop n 0)
  /-- Otherwise it reports a root in the first interval at whose end this is not so. -/
  first : c.handler.direction = 0 → c.level forward G stop n 0 ≠ 0 → ∀ k < n,
    (∀ j < k, 0 < c.level forward G stop n (j + 1) * c.level forward G stop n 0) →
    c.level forward G stop n (k + 1) * c.level forward G stop n 0 ≤ 0 →
    ∃ found, result = some found ∧ Precedes forward (c.sample stop n k) found.root ∧
      NotAfter forward found.root (c.sample stop n (k + 1))
  /-- A change of sign that lasts as long as the longest interval permitted is not missed. -/
  lasting : c.handler.direction = 0 → c.level forward G stop n 0 ≠ 0 → ∀ longest ∈ c.settings.maxCheckInterval,
    ∀ p q, NotAfter forward c.tRef p → NotAfter forward p q → NotAfter forward q stop → longest ≤ |q - p| →
    (∀ t, NotAfter forward p t → NotAfter forward t q → G t * c.level forward G stop n 0 < 0) →
    ∃ found, result = some found ∧ NotAfter forward found.root q
  /-- A channel for one direction does not miss a change of sign in that direction between two samples. -/
  directed : c.handler.direction ≠ 0 → ∀ k < n,
    c.level forward G stop n k * c.level forward G stop n (k + 1) < 0 →
    (c.level forward G stop n k < 0 ↔ 0 < c.handler.direction) →
    ∃ found, result = some found ∧ NotAfter forward found.root (c.sample stop n (k + 1)) ∧
      (found.increasing = true ↔ 0 < c.handler.direction)

variable {result : Option (Crossing Rat)}

/-- If an interval shows a root, one is reported in it or in an earlier one. -/
theorem Locates.found (located : c.Locates forward G stop n 0 result) {k : Nat} (inside : k < n)
    (shown : c.Shows forward G (c.sample stop n k) (c.sample stop n (k + 1))) :
    ∃ found j, result = some found ∧ j ≤ k ∧
      crosses (G (c.lead forward G (c.sample stop n j) (c.sample stop n (j + 1)))) (G (c.sample stop n (j + 1))) = true ∧
      Precedes forward (c.sample stop n j) found.root ∧ NotAfter forward found.root (c.sample stop n (j + 1)) ∧
      c.accepts found = true := by
  cases result with
  | none => exact absurd shown (located k (Nat.zero_le k) inside)
  | some found =>
    obtain ⟨j, _, _, before, place⟩ := located
    refine ⟨found, j, rfl, ?_, place⟩
    by_contra! later
    exact before k (Nat.zero_le k) later shown

section

variable (located : c.Locates forward G stop n 0 result)

include located

theorem Locates.silent (undirected : c.handler.direction = 0) (start : c.level forward G stop n 0 ≠ 0) :
    result = none ↔ ∀ k < n, 0 < c.level forward G stop n (k + 1) * c.level forward G stop n 0 := by
  constructor
  · rintro rfl
    exact (not_shows_iff undirected start).mp fun j inside => located j (Nat.zero_le j) inside
  · intro agree
    cases result with
    | none => rfl
    | some found =>
      obtain ⟨j, _, inside, _, crossing, _⟩ := located
      have disagrees := (crosses_iff_disagrees start fun i less => agree i (less.trans inside)).mp crossing
      exact absurd (agree j inside) disagrees.not_gt

theorem Locates.first (undirected : c.handler.direction = 0) (start : c.level forward G stop n 0 ≠ 0) {k : Nat}
    (inside : k < n) (agree : ∀ j < k, 0 < c.level forward G stop n (j + 1) * c.level forward G stop n 0)
    (disagrees : c.level forward G stop n (k + 1) * c.level forward G stop n 0 ≤ 0) :
    ∃ found, result = some found ∧ Precedes forward (c.sample stop n k) found.root ∧
      NotAfter forward found.root (c.sample stop n (k + 1)) := by
  obtain ⟨found, j, reported, least, crossing, behind, reached, _⟩ :=
    located.found inside ((shows_iff_disagrees undirected start agree).mpr disagrees)
  rcases Nat.eq_or_lt_of_le least with rfl | earlier
  · exact ⟨found, reported, behind, reached⟩
  · have early := (crosses_iff_disagrees start fun i less => agree i (less.trans earlier)).mp crossing
    exact absurd (agree j earlier) early.not_gt

section

variable (positive : 0 < n) (ahead : Precedes forward c.tRef stop)

include positive ahead

/-- A part of the window that is as long as the intervals holds a sample, and this or an earlier one shows a root. -/
theorem Locates.lasting (undirected : c.handler.direction = 0) (start : c.level forward G stop n 0 ≠ 0) {p q : Rat}
    (begun : NotAfter forward c.tRef p) (order : NotAfter forward p q) (ended : NotAfter forward q stop)
    (long : |stop - c.tRef| / n ≤ |q - p|)
    (opposite : ∀ t, NotAfter forward p t → NotAfter forward t q → G t * c.level forward G stop n 0 < 0) :
    ∃ found, result = some found ∧ NotAfter forward found.root q := by
  have behind : Precedes forward c.tRef p := by
    refine begun.precedes_of_ne fun same => ?_
    exact (level_start c forward G stop n).not_gt (same ▸ opposite p .refl order)
  obtain ⟨k, inside, after, before⟩ := exists_sample positive ahead behind order ended long
  have disagrees : c.level forward G stop n (k + 1) * c.level forward G stop n 0 < 0 := opposite _ after before
  have shown : ∃ j ≤ k, c.Shows forward G (c.sample stop n j) (c.sample stop n (j + 1)) := by
    by_contra! unshown
    have agree := (not_shows_iff undirected start).mp fun j less => unshown j (Nat.le_of_lt_succ less)
    exact disagrees.not_gt (agree k (Nat.lt_succ_self k))
  obtain ⟨j, least, shown⟩ := shown
  obtain ⟨found, i, reported, low, _, _, reached, _⟩ := located.found (least.trans_lt inside) shown
  exact ⟨found, reported, (reached.trans (sample_notAfter positive ahead (by omega))).trans before⟩

theorem Locates.directed (directed : c.handler.direction ≠ 0) {k : Nat} (inside : k < n)
    (change : c.level forward G stop n k * c.level forward G stop n (k + 1) < 0)
    (wanted : c.level forward G stop n k < 0 ↔ 0 < c.handler.direction) :
    ∃ found, result = some found ∧ NotAfter forward found.root (c.sample stop n (k + 1)) ∧
      (found.increasing = true ↔ 0 < c.handler.direction) := by
  have start : c.level forward G stop n k ≠ 0 := left_ne_zero_of_mul change.ne
  have shown : c.Shows forward G (c.sample stop n k) (c.sample stop n (k + 1)) := by
    refine ⟨(crosses_level start).mpr (by linarith), ?_⟩
    rw [apply_lead start]
    simp [Handler.wants, wanted]
  obtain ⟨found, j, reported, least, _, _, reached, accepted⟩ := located.found inside shown
  exact ⟨found, reported, reached.trans (sample_notAfter positive ahead (by omega)), wants_iff accepted directed⟩

end

theorem Locates.complete (valid : c.settings.valid = true) (counted : c.intervals stop = .ok n)
    (ahead : Precedes forward c.tRef stop) : c.Complete forward G stop n result where
  silent := located.silent
  first := fun undirected start _ inside agree disagrees => located.first undirected start inside agree disagrees
  lasting := fun undirected start longest permitted _ _ begun order ended long opposite =>
    located.lasting (intervals_pos counted) ahead undirected start begun order ended
      ((interval_short valid counted longest permitted).trans long) opposite
  directed := fun directed _ inside change wanted =>
    located.directed (intervals_pos counted) ahead directed inside change wanted

end

/-- A window that ends at the reference point has nothing to report. -/
theorem complete_of_point (valid : c.settings.valid = true) (point : c.tRef = stop) :
    c.Complete forward G stop n none := by
  have sample_eq : ∀ k, c.sample stop n k = stop := by
    intro k
    rw [sample, point, sub_self, zero_div, mul_zero, add_zero]
  have level_eq : ∀ k, c.level forward G stop n k = G stop := by
    intro k
    cases k with
    | zero =>
      have offset : min c.settings.convergence |stop - stop| = 0 := by
        rw [sub_self, abs_zero]
        exact min_eq_right (Settings.valid_iff.mp valid).2.1.le
      rw [level, sample_eq, lead, point, offset, add_zero, sub_zero, ite_self, ite_self]
    | succ k => rw [level, sample_eq]
  refine ⟨fun _ start => ⟨fun _ k _ => ?_, fun _ => rfl⟩, fun _ start k _ _ disagrees => ?_, ?_, fun _ k _ change _ => ?_⟩
  · rw [level_eq] at start
    rw [level_eq, level_eq]
    exact mul_self_pos.mpr start
  · rw [level_eq] at start
    rw [level_eq, level_eq] at disagrees
    exact absurd (mul_self_pos.mpr start) disagrees.not_gt
  · intro _ _ longest permitted p q begun order ended long _
    have positive := (Settings.valid_iff.mp valid).1 longest permitted
    rw [order.abs_sub] at long
    rw [point, notAfter_iff_sign] at begun
    rw [notAfter_iff_sign] at ended
    linarith
  · rw [level_eq, level_eq] at change
    exact absurd change (mul_self_nonneg _).not_gt

section

variable [Spacing Rat] {window : Window Rat}

/-- Along the dense output of a window the switching function is a function of time, from the reference point to the
end of the window, and the reference value is its value. -/
structure Traces (c : Channel ω Rat) (forward : Bool) (window : Window Rat) (G : Rat → Rat) : Prop where
  order : NotAfter forward c.tRef window.stop
  computes : ∀ t, NotAfter forward c.tRef t → NotAfter forward t window.stop →
    ∃ y, window.stateAt t = .ok y ∧ (c.handler.g t y).Yields (· = G t)
  reference : c.gRef = G c.tRef

theorem Traces.along (traces : c.Traces forward window G) {t : Rat} (begun : NotAfter forward c.tRef t)
    (reached : NotAfter forward t window.stop) : (c.along window t).Yields (· = G t) := by
  intro v
  obtain ⟨y, state, yields⟩ := traces.computes t begun reached
  obtain ⟨value, v', ran, same⟩ := yields v
  refine ⟨value, v', ?_, same⟩
  rw [Channel.along, state]
  exact ran

/-- The search of an armed channel through the last samples of a window. -/
theorem through_locates (valid : c.settings.valid = true) (armed : c.armed = true) (traces : c.Traces forward window G)
    (positive : 0 < n) (ahead : Precedes forward c.tRef window.stop) {m k : Nat} (count : k + m = n)
    {result : Option (Crossing Rat)}
    (ran : (c.through forward (c.along window) ((List.range' (k + 1) m).map (c.sample window.stop n))
      (c.sample window.stop n k) (G (c.sample window.stop n k))).runFrom w = (.ok result, w')) :
    c.Locates forward G window.stop n k result := by
  induction m generalizing k w with
  | zero =>
    rw [List.range'_zero, List.map_nil, through, Effect.runFrom_pure] at ran
    cases ran
    intro j low high
    omega
  | succ m ih =>
    have next := sample_precedes positive ahead (Nat.lt_succ_self k)
    have begun := (sample_inside positive ahead (show k ≤ n by omega)).1
    have reached := (sample_inside positive ahead (show k + 1 ≤ n by omega)).2
    rw [List.range'_succ, List.map_cons, through, Effect.runFrom_bind_ok] at ran
    obtain ⟨gb, w₁, value, ran⟩ := ran
    obtain rfl := (traces.along (begun.trans next.notAfter) reached).of_returns (Effect.returns_of_runFrom value)
    rw [Effect.runFrom_bind_ok] at ran
    obtain ⟨finding, w₂, searched, ran⟩ := ran
    have shown := between_shown valid next
      (fun t after before => traces.along (begun.trans after) (before.trans reached)) armed searched
    cases finding with
    | crossing found =>
      rw [Effect.runFrom_pure] at ran
      cases ran
      obtain ⟨accepted, spans⟩ := between_crossing valid next searched
      exact ⟨k, le_rfl, by omega, fun i low high => by omega, shown, spans.behind, spans.reached, accepted⟩
    | clear =>
      have rest := ih (by omega) ran
      cases result with
      | none =>
        intro j low high
        rcases Nat.eq_or_lt_of_le low with rfl | later
        · exact shown
        · exact rest j later high
      | some found =>
        obtain ⟨j, low, high, before, crossing, behind, reached, accepted⟩ := rest
        refine ⟨j, by omega, high, fun i first less => ?_, crossing, behind, reached, accepted⟩
        rcases Nat.eq_or_lt_of_le first with rfl | later
        · exact shown
        · exact before i later less

/-- The search of an armed channel through a window. -/
theorem firstRoot_locates (valid : c.settings.valid = true) (armed : c.armed = true)
    (traces : c.Traces forward window G) (ahead : Precedes forward c.tRef window.stop)
    (counted : c.intervals window.stop = .ok n) {result : Option (Crossing Rat)}
    (ran : (c.firstRoot forward window).runFrom w = (.ok result, w')) :
    c.Locates forward G window.stop n 0 result := by
  have positive := intervals_pos counted
  obtain ⟨m, counted', ran⟩ := firstRoot_through ahead ran
  obtain rfl : n = m := Except.ok.inj (counted.symm.trans counted')
  have samples := c.samples_eq window.stop positive
  rw [List.range_eq_range', List.range'_succ, List.map_cons] at samples
  rw [(List.cons.inj samples).2, traces.reference, ← c.sample_zero window.stop n] at ran
  exact through_locates valid armed traces positive ahead (Nat.zero_add n) ran

/-- The search of an armed channel from the start of a window misses nothing that its samples show. Unless a root
cannot be isolated, it ends; it divides the window into equal intervals, none longer than permitted; and what it
reports follows from the values at their ends. -/
theorem firstRoot_complete (valid : c.settings.valid = true) (armed : c.armed = true)
    (traces : c.Traces forward window G) :
    ∃ n, c.intervals window.stop = .ok n ∧ 0 < n ∧
      (∀ longest ∈ c.settings.maxCheckInterval, ∀ k,
        |c.sample window.stop n (k + 1) - c.sample window.stop n k| ≤ longest) ∧
      (c.firstRoot forward window).Ends (c.Complete forward G window.stop n) Error.IsIsolation := by
  obtain ⟨n, counted⟩ := c.intervals_ok window.stop
  refine ⟨n, counted, intervals_pos counted, fun longest permitted k => ?_, fun w => ⟨fun result w' ran => ?_, ?_⟩⟩
  · rw [abs_sample_sub]
    exact interval_short valid counted longest permitted
  · by_cases ahead : Precedes forward c.tRef window.stop
    · exact (firstRoot_locates valid armed traces ahead counted ran).complete valid counted ahead
    · have passed : isAfter forward window.stop c.tRef = false :=
        Bool.eq_false_iff.mpr fun later => ahead (isAfter_iff.mp later)
      simp only [firstRoot, passed, Bool.not_false, ↓reduceIte, Effect.runFrom_pure] at ran
      cases ran
      refine complete_of_point valid ?_
      by_contra! apart
      exact ahead (traces.order.precedes_of_ne apart)
  · have fails : (c.firstRoot forward window).Ends (fun _ => True) Error.IsIsolation :=
      firstRoot_ends (fun _ => id) valid fun t begun reached =>
        (traces.along begun reached).ends.mono (fun _ _ => trivial) fun _ => id
    exact (fails w).2

end

/-- The search of a channel that starts on the first root of a dip, in four intervals. -/
theorem firstRoot_complete_dip :
    letI := Spacing.gapless
    let c := Channel.awaiting (.dip 0 (1 / 2)) ⟨some (1 / 4), 1 / 100, 100, none⟩ 0
    let window := Window.ofStep .steady
    let G : Rat → Rat := fun t => (t - 0) * (t - 1 / 2)
    c.settings.valid = true ∧ c.armed = true ∧ c.Traces true window G ∧
    ∃ n, c.intervals window.stop = .ok n ∧ 0 < n ∧
      (∀ longest ∈ c.settings.maxCheckInterval, ∀ k,
        |c.sample window.stop n (k + 1) - c.sample window.stop n k| ≤ longest) ∧
      (c.firstRoot true window).Ends (c.Complete true G window.stop n) Error.IsIsolation := by
  let := Spacing.gapless
  intro c window G
  have valid : c.settings.valid = true := by decide +kernel
  have long : window.step.h ≠ 0 := by decide +kernel
  have fits : window.step.requireCubic = .ok () := by decide +kernel
  have traces : c.Traces true window G := by
    refine ⟨by decide +kernel, fun t begun reached => ?_, by decide +kernel⟩
    obtain ⟨y, state⟩ := Window.stateAt_ok (fun _ => le_rfl) long fits begun reached
    exact ⟨y, state, fun v => ⟨_, v, rfl, rfl⟩⟩
  exact ⟨valid, rfl, traces, firstRoot_complete valid rfl traces⟩

end Channel

end Trajectory
