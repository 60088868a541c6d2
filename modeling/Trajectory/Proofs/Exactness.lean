import Mathlib.Tactic
import Trajectory.Proofs.Flow
import Trajectory.Proofs.StepGrid

/-!
Whole runs on which the schemes are exact.

A run without handlers along a field goes through the orbit of its initial vector: the flow of the scheme takes it from
each point of the step grid to the next (`Scheme.orbit`). Every move keeps the run on that orbit (`orbits_move`), the
derivative that one step hands to the next included. So what the flow does on linear and on polynomial fields, the run
does on the whole (`Engine.integrate_exact`).
-/

namespace Trajectory

open Matrix Polynomial Session

variable {ω : Type} {n : Nat}

/-- The vectors to which the flow of a scheme takes an initial one, from each of some times to the next. -/
def Scheme.orbit (scheme : Scheme) (f : Rat → (Fin n → Rat) → Fin n → Rat) (times : Nat → Rat) (v₀ : Fin n → Rat) :
    Nat → Fin n → Rat
  | 0 => v₀
  | k + 1 => scheme.flow f (times k) (times (k + 1) - times k) (scheme.orbit f times v₀ k)

section

variable {course : Course ω Rat} {f : Rat → (Fin n → Rat) → Fin n → Rat} {v v₀ : Fin n → Rat} {t t0 : Rat} {N : Nat}
  {s s' : Session ω Rat} {p q : Stage ω}

/-- The orbit of a course with so many steps. -/
def Course.orbit (course : Course ω Rat) (f : Rat → (Fin n → Rat) → Fin n → Rat) (t0 : Rat) (N : Nat)
    (v₀ : Fin n → Rat) : Nat → Fin n → Rat :=
  course.stepper.scheme.orbit f (gridPoint t0 course.h course.target N) v₀

/-- A window leads to a vector, and its step has the derivative there. -/
structure Leg.LeadsTo (f : Rat → (Fin n → Rat) → Fin n → Rat) (v : Fin n → Rat) (leg : Leg Rat) (window : Window Rat) :
    Prop where
  state : window.yStop = .ofVec v
  derivative : leg.step.ypNext = .ofVec (f window.stop v)

/-- At every stage of a run without handlers its states are those of an orbit, as far as it has come. -/
def Stage.Orbits (f : Rat → (Fin n → Rat) → Fin n → Rat) (orbit : Nat → Fin n → Rat) (s : Session ω Rat) :
    Stage ω → Prop
  | opening _ y => y = .ofVec (orbit s.accepted)
  | stepping t y yp => y = .ofVec (orbit s.accepted) ∧ ∀ value ∈ yp, value = .ofVec (f t (orbit s.accepted))
  | scanning leg window => leg.LeadsTo f (orbit (s.accepted + 1)) window
  | decided cut _ _ => cut.leg.LeadsTo f (orbit (s.accepted + 1)) cut.window
  | accepted cut _ _ => cut.leg.LeadsTo f (orbit s.accepted) cut.window
  | told cut _ => cut.leg.LeadsTo f (orbit s.accepted) cut.window
  | ended _ y => y = .ofVec (orbit s.accepted)
  | _ => True

/-- The next step leads to the image under the flow of the scheme. -/
theorem Course.nextLeg_flow (field : course.equation.toRate.Field f) {yp : Option (State Rat)} {leg : Leg Rat}
    (known : ∀ value ∈ yp, value = .ofVec (f t v))
    (taken : (course.nextLeg t (.ofVec v) yp).runFrom s = (.ok leg, s')) :
    leg.LeadsTo f (course.stepper.scheme.flow f t (leg.step.tNext - t) v) (.ofStep leg.step) := by
  obtain ⟨step, _, advanced, same⟩ := Effect.runFrom_bind_ok.mp taken
  obtain ⟨_, advanced, _⟩ := onTally_ok.mp advanced
  obtain ⟨_, _, _, stop⟩ := Stepper.advance_ok advanced
  obtain ⟨state, derivative⟩ := (course.stepper.advance_flow field t _ v known _).1 _ _ advanced
  cases same
  cases last : course.isLast t with
  | true =>
    rw [last, if_pos rfl] at state derivative
    rw [add_sub_cancel] at derivative
    exact ⟨state, derivative⟩
  | false =>
    rw [last, if_neg Bool.false_ne_true] at state derivative stop
    have size : step.tNext - t = course.h := by rw [stop, add_sub_cancel_left]
    rw [← size] at state derivative
    rw [add_sub_cancel] at derivative
    exact ⟨state, derivative⟩

variable [Spacing Rat]

/-- Without handlers every move keeps a run on its orbit. -/
theorem orbits_move (directed : course.Directed [] t0) (takes : course.Takes t0 N)
    (field : course.equation.toRate.Field f) (move : Move course (p, s) (q, s'))
    (route : p.OnRoute course [] t0 s.monitor) (gridded : p.Gridded course t0 N s)
    (before : p.Orbits f (course.orbit f t0 N v₀) s) : q.Orbits f (course.orbit f t0 N v₀) s' := by
  cases move with
  | «open» derivative fits watched observed =>
    have count := (((sameAccount_onTally derivative).trans (sameAccount_onMonitor watched)).trans
      (sameAccount_onObservers observed)).2
    obtain ⟨_, called, _⟩ := onTally_ok.mp derivative
    rw [Stage.Orbits] at before
    rw [before] at called
    rw [Stage.Orbits, count]
    refine ⟨before, ?_⟩
    rintro _ ⟨⟩
    exact (field.call _ _ _).1 _ _ called
  | @step t y yp leg _ _ taken =>
    obtain ⟨k, below, here, grid⟩ := gridded
    have whole := Course.nextLeg_grid directed takes below here taken
    obtain ⟨rfl, known⟩ := before
    have leads := Course.nextLeg_flow field known taken
    have start : t = gridPoint t0 course.h course.target N k := by rw [gridPoint, if_pos below, here]
    have stop : leg.step.tNext = gridPoint t0 course.h course.target N (k + 1) := whole.stop
    rw [Stage.Orbits, (sameAccount_nextLeg taken).2, grid.count]
    rw [grid.count, stop, start] at leads
    exact leads
  | clear scanned =>
    rw [Stage.Orbits, (sameAccount_scan scanned).2]
    exact before
  | locate scanned => trivial
  | accept affordable => exact before
  | tell told =>
    rw [Stage.Orbits, (sameAccount_onObservers told).2]
    exact before
  | resume committed resumed =>
    obtain ⟨_, whole, _⟩ := gridded
    rw [Stage.Orbits, ← whole, ← (sameAccount_onMonitor committed).2] at before
    cases resumed with
    | ended => exact before.state
    | stepping =>
      refine ⟨before.state, ?_⟩
      rintro _ ⟨⟩
      exact before.derivative
    | scanning inner _ => exact absurd (congrArg Window.stop whole) inner
  | stop => cases gridded.1
  | replace => cases gridded.1
  | restart => cases gridded.1
  | _ => exact gridded.elim

/-- A run without handlers along a field ends at the end of its orbit. -/
theorem orbits_moves (directed : course.Directed [] t0) (takes : course.Takes t0 N)
    (field : course.equation.toRate.Field f) (created : s.monitor.channels = []) (fresh : s.journal = [])
    (unspent : s.accepted = 0) (path : Moves course (.opening t0 (.ofVec v₀), s) (q, s')) :
    q.OnRoute course [] t0 s'.monitor ∧ q.Gridded course t0 N s' ∧ q.Orbits f (course.orbit f t0 N v₀) s' := by
  refine path.preserve (P := fun q u => q.OnRoute course [] t0 u.monitor ∧ q.Gridded course t0 N u ∧
    q.Orbits f (course.orbit f t0 N v₀) u) ⟨⟨rfl, created⟩, ⟨rfl, unspent, Nat.zero_le _, by rw [fresh]; rfl⟩, ?_⟩ ?_
  · rw [Stage.Orbits, unspent]
    rfl
  · exact fun _ _ _ _ ⟨route, gridded, orbits⟩ move => ⟨onRoute_move directed move route,
      gridded_move directed takes move route gridded, orbits_move directed takes field move route gridded orbits⟩

end

/-! ## Exact runs -/

namespace Scheme

variable {h t0 target : Rat} {N k : Nat}

/-- As long as the steps are full ones, a linear orbit is that of a power of one matrix. -/
theorem orbit_linear (scheme : Scheme) (A : Matrix (Fin n) (Fin n) Rat) (v₀ : Fin n → Rat) (below : k < N) :
    scheme.orbit (fun _ v => A *ᵥ v) (gridPoint t0 h target N) v₀ k =
      aeval (h • A) (taylor scheme.order) ^ k *ᵥ v₀ := by
  induction k with
  | zero => rw [orbit, pow_zero, one_mulVec]
  | succ k ih =>
    have size : gridPoint t0 h target N (k + 1) - gridPoint t0 h target N k = h := by
      rw [gridPoint, gridPoint, if_pos below, if_pos (by omega)]
      push_cast
      ring
    rw [orbit, size, flow_linear, ih (by omega), mulVec_mulVec, pow_succ']

/-- The last step of a linear orbit is that of a matrix of its own. -/
theorem orbit_linear_end (scheme : Scheme) (A : Matrix (Fin n) (Fin n) Rat) (v₀ : Fin n → Rat) (k : Nat) :
    scheme.orbit (fun _ v => A *ᵥ v) (gridPoint t0 h target (k + 1)) v₀ (k + 1) =
      (aeval ((target - (t0 + k * h)) • A) (taylor scheme.order) * aeval (h • A) (taylor scheme.order) ^ k) *ᵥ v₀ := by
  have size : gridPoint t0 h target (k + 1) (k + 1) - gridPoint t0 h target (k + 1) k = target - (t0 + k * h) := by
    simp [gridPoint]
  rw [orbit, size, flow_linear, orbit_linear scheme A v₀ (Nat.lt_succ_self k), mulVec_mulVec]

/-- A polynomial orbit has gained the integral, whatever the times are. -/
theorem orbit_polynomial (scheme : Scheme) {p : Fin n → ℚ[X]} (degree : ∀ i, (p i).natDegree < scheme.order)
    (times : Nat → Rat) (v₀ : Fin n → Rat) (k : Nat) (i : Fin n) :
    scheme.orbit (fun t _ i => (p i).eval t) times v₀ k i =
      v₀ i + ((primitive (p i)).eval (times k) - (primitive (p i)).eval (times 0)) := by
  induction k with
  | zero => rw [orbit, sub_self, add_zero]
  | succ k ih =>
    rw [orbit, flow_polynomial scheme degree, add_sub_cancel]
    dsimp only
    rw [ih]
    ring

end Scheme

namespace Engine

variable [Spacing Rat] {e e' : Engine ω Rat} {equation : Equation ω Rat} {t0 target t : Rat} {y0 y : State Rat}
  {v₀ : Fin n → Rat} {w w' : ω}

/-- A run without handlers that returns is the path of a course that takes as many steps as the run has made. -/
theorem unwatched_path (usable : e.Usable) (unwatched : e.watches = [])
    (ran : (integrate equation t0 y0 target).runFrom (e, w) = (.ok (t, y), e', w')) :
    ∃ course u, course.equation = equation ∧ course.stepper = e.stepper ∧ course.target = target ∧
      course.h = e.directedSize t0 target ∧ course.Directed [] t0 ∧ course.Takes t0 e'.accepted ∧
      Moves course (.opening t0 y0, Session.start w (Monitor.create []) e.observers) (.ended t y, u) ∧
      e'.journal = u.journal ∧ e'.accepted = u.accepted := by
  obtain ⟨course, u, prepared, path, journal, accepted, _⟩ := integrate_path ran
  obtain ⟨directed, same, stepper, aim, _, forward_eq⟩ := prepare_ok usable prepared
  rw [unwatched] at directed path
  have size : course.h = e.directedSize t0 target := by rw [prepare_size prepared, forward_eq, directedSize]
  have nonzero : course.h ≠ 0 := by
    intro zero
    have ahead := directed.size
    rw [zero, mul_zero] at ahead
    exact ahead.false
  obtain ⟨N, takes⟩ := exists_least_suffices |course.target - t0| (abs_pos.mpr nonzero)
  obtain ⟨_, _, grid⟩ := gridded_moves directed takes rfl rfl rfl path
  refine ⟨course, u, same, stepper, aim, size, directed, ?_, path, journal, accepted⟩
  rw [accepted, grid.count]
  exact takes

/-- Along a field a run without handlers ends at the end of its orbit. -/
theorem integrate_orbit (usable : e.Usable) (unwatched : e.watches = []) {f : Rat → (Fin n → Rat) → Fin n → Rat}
    (field : equation.toRate.Field f)
    (ran : (integrate equation t0 (.ofVec v₀) target).runFrom (e, w) = (.ok (t, y), e', w')) :
    y = .ofVec (e.stepper.scheme.orbit f (gridPoint t0 (e.directedSize t0 target) target e'.accepted) v₀
      e'.accepted) := by
  obtain ⟨course, u, rfl, stepper, rfl, size, directed, takes, path, _, accepted⟩ :=
    unwatched_path usable unwatched ran
  obtain ⟨_, _, orbits⟩ := orbits_moves directed takes field rfl rfl rfl path
  rw [Stage.Orbits, ← accepted] at orbits
  rw [orbits, Course.orbit, stepper, size]

/-- A run without handlers that returns after `N` steps has made `N - 1` steps of the step size and one to the target.
Along a linear field it returns the image of the initial vector under the Taylor polynomials of the exponential, of the
degree that is the order of the scheme. Along polynomials of time of lower degree than that it returns the initial
vector with the integral added. -/
theorem integrate_exact (usable : e.Usable) (unwatched : e.watches = [])
    (ran : (integrate equation t0 (.ofVec v₀) target).runFrom (e, w) = (.ok (t, y), e', w')) :
    let N := e'.accepted
    let order := e.stepper.scheme.order
    let h := e.directedSize t0 target
    let h' := target - (t0 + (N - 1 : Nat) * h)
    1 ≤ N ∧ t = target ∧ e'.journal.spans = (List.range N).map (gridStep t0 h target N) ∧
      (∀ A : Matrix (Fin n) (Fin n) Rat, equation.toRate.Field (fun _ v => A *ᵥ v) →
        y = .ofVec ((aeval (h' • A) (taylor order) * aeval (h • A) (taylor order) ^ (N - 1)) *ᵥ v₀)) ∧
      ∀ p : Fin n → ℚ[X], (∀ i, (p i).natDegree < order) → equation.toRate.Field (fun t _ i => (p i).eval t) →
        ∃ v, y = .ofVec v ∧
          ∀ i, (v i : ℝ) = v₀ i + ∫ x in (t0 : ℝ)..target, ((p i).map (algebraMap ℚ ℝ)).eval x := by
  intro N order h h'
  obtain ⟨course, u, _, _, rfl, size, directed, takes, path, journal, accepted⟩ := unwatched_path usable unwatched ran
  obtain ⟨_, reached, grid⟩ := gridded_moves directed takes rfl rfl rfl path
  have atLeast : 1 ≤ N := takes.1.1
  have start : gridPoint t0 h course.target N 0 = t0 := by simp [gridPoint, Nat.one_le_iff_ne_zero.mp atLeast]
  have stop : gridPoint t0 h course.target N N = course.target := by simp [gridPoint]
  refine ⟨atLeast, reached, ?_, fun A field => ?_, fun p degree field => ?_⟩
  · rw [journal, grid.spans, size]
  · obtain ⟨k, count⟩ := Nat.exists_eq_add_of_le' atLeast
    have orbit := integrate_orbit usable unwatched field ran
    rw [show e'.accepted = k + 1 from count, Scheme.orbit_linear_end] at orbit
    simp only [h', count, Nat.add_sub_cancel]
    exact orbit
  · refine ⟨_, integrate_orbit usable unwatched field ran, fun i => ?_⟩
    rw [Scheme.orbit_polynomial e.stepper.scheme degree, start, stop, integral_eval]
    push_cast
    rfl

end Engine

/-- The system of a field. -/
def Equation.along (f : Rat → (Fin n → Rat) → Fin n → Rat) : Equation Unit Rat where
  eval t y := pure (.ofVec (f t fun i => y.get i))
  onCompile := pure ()
  compiled t y := .ok (.ofVec (f t fun i => y.get i))
  dimension := n
  label := "along"

theorem Equation.field_along (f : Rat → (Fin n → Rat) → Fin n → Rat) : (along f).toRate.Field f := by
  have entries : ∀ v : Fin n → Rat, (fun i : Fin n => (Tensor.ofVec v).get i) = v := by
    intro v
    funext i
    simp [Tensor.get]
  constructor
  · intro t v
    exact Effect.ends_pure (congrArg (fun v => Tensor.ofVec (f t v)) (entries v))
  · rintro t v _ ⟨⟩
    exact congrArg (fun v => Tensor.ofVec (f t v)) (entries v)

/-- A rotation, and a growth with time, in two full steps and half a one. -/
theorem Engine.midpoint_exact :
    letI := Spacing.gapless
    let e : Engine Unit Rat := { timed (2 / 5) [] with stepper := ⟨.midpoint, false⟩ }
    let A : Matrix (Fin 2) (Fin 2) Rat := !![0, 1; -1, 0]
    let turn := (integrate (.along fun _ v => A *ᵥ v) 0 (.ofVec ![1, 0]) 1).runFrom (e, ())
    let growth := (integrate (.along fun t (_ : Fin 1 → Rat) _ => 2 * t + 1) 0 (.ofVec ![3]) 1).runFrom (e, ())
    turn.1 = .ok (1, .ofVec ![16421 / 31250, -2683 / 3125]) ∧
      ![16421 / 31250, -2683 / 3125] =
        (aeval ((1 / 5 : Rat) • A) (taylor 2) * aeval ((2 / 5 : Rat) • A) (taylor 2) ^ 2) *ᵥ ![1, 0] ∧
      growth.1 = .ok (1, .ofVec ![5]) ∧ (5 : ℝ) = 3 + ∫ x in (0 : ℝ)..1, (2 * x + 1) := by
  let := Spacing.gapless
  intro e A turn growth
  have usable : e.Usable := ⟨by decide +kernel, fun _ mem => absurd mem List.not_mem_nil⟩
  have turned : turn.1 = .ok (1, .ofVec ![16421 / 31250, -2683 / 3125]) := by decide +kernel
  have grown : growth.1 = .ok (1, .ofVec ![5]) := by decide +kernel
  have size : e.directedSize 0 1 = 2 / 5 := by decide +kernel
  have count : turn.2.1.accepted = 3 := by decide +kernel
  obtain ⟨_, _, _, linear, _⟩ := integrate_exact usable rfl (Prod.ext turned rfl)
  obtain ⟨_, _, _, _, polynomial⟩ := integrate_exact usable rfl (Prod.ext grown rfl)
  refine ⟨turned, ?_, grown, ?_⟩
  · have image := Tensor.ofVec_injective (linear A (Equation.field_along _))
    have rest : (1 : Rat) - (0 + (3 - 1 : Nat) * (2 / 5)) = 1 / 5 := by norm_num
    rw [size, show turn.2.1.accepted = 3 from count, rest] at image
    exact image
  · have degree : (C 2 * X + C 1 : ℚ[X]).natDegree < 2 := Nat.lt_succ_of_le (by compute_degree)
    have field := Equation.field_along fun t (_ : Fin 1 → Rat) _ => 2 * t + 1
    obtain ⟨v, same, gained⟩ := polynomial (fun _ => C 2 * X + C 1) (fun _ => degree) (by simpa using field)
    have total := gained 0
    rw [← Tensor.ofVec_injective same] at total
    simpa using total

end Trajectory
