import Mathlib.Tactic
import Trajectory.Proofs.Symmetry.Basic
import Trajectory.Stepper
import Trajectory.Window

/-!
Steps and dense output under a symmetry.

The image of a right-hand side is taken at the images of times and carries the sign of time
(`Rate.image`); states stay as they are. So a step size and a derivative always meet in a product that
does not change, and the image of a step starts and ends with the same states (`Step.image`,
`Stepper.agree_advance`). The dense output of the image answers with the same states at the images of
times (`Window.matched_stateAt`).
-/

namespace Trajectory

variable {ω σ : Type} {sym : Symmetry}

namespace Tensor

theorem one_smul (y : State Rat) : (1 : Rat) * y = y := by
  refine Tensor.ext rfl ?_
  simp

theorem smul_smul (a b : Rat) (y : State Rat) : a * (b * y) = (a * b) * y := by
  refine Tensor.ext rfl ?_
  simp [mul_assoc]

theorem get_smul (a : Rat) (y : State Rat) (k : Nat) : (a * y).get k = a * y.get k := by
  have undefined : a * (Scalar.undefined : Rat) = Scalar.undefined := mul_zero a
  rw [get, get, entries_smul, List.getD_eq_getElem?_getD, List.getElem?_map, List.getD_eq_getElem?_getD]
  cases y.entries[k]? with
  | none => exact undefined.symm
  | some x => rfl

theorem smul_add (a : Rat) (x y : State Rat) : a * (x + y) = a * x + a * y := by
  by_cases same : x.shape = y.shape
  · have same' : (a * x).shape = (a * y).shape := same
    refine Tensor.ext ((shape_add same).trans (shape_add same').symm) ?_
    rw [entries_smul, entries_add same, entries_add same', entries_smul, entries_smul, List.map_zipWith,
      List.zipWith_map]
    simp [mul_add]
  · have other : (a * x).shape ≠ (a * y).shape := same
    change a * combine _ x y = combine _ (a * x) (a * y)
    rw [combine, dif_neg same, combine, dif_neg other]
    refine Tensor.ext rfl ?_
    rw [entries_smul, entries_tabulate, entries_tabulate, List.map_map]
    refine List.map_congr_left fun k _ => ?_
    simp [get_smul, mul_add]

end Tensor

namespace Symmetry

variable (sym)

/-- The image of a derivative. -/
def rate (k : State Rat) : State Rat := sym.sign * k

theorem smul_rate (c : Rat) (k : State Rat) : c * sym.rate k = sym.rate (c * k) := by
  rw [rate, rate, Tensor.smul_smul, mul_comm, ← Tensor.smul_smul]

theorem rate_add (k l : State Rat) : sym.rate (k + l) = sym.rate k + sym.rate l := Tensor.smul_add _ _ _

/-- The sign of time cancels in the product of a length of time and a derivative. -/
theorem time_smul_rate (h : Rat) (k : State Rat) : sym.time h * sym.rate k = h * k := by
  rw [rate, Tensor.smul_smul, time, mul_right_comm, sym.sign_mul_sign, one_mul]

end Symmetry

/-- The image of a right-hand side. -/
def Rate.image (sym : Symmetry) (f : Rate ω Rat) : Rate ω Rat where
  eval t y := sym.rate <$> f.eval (sym.time t) y
  onCompile := f.onCompile
  compiled t y := (f.compiled (sym.time t) y).map sym.rate

/-- The image of an equation. -/
def Equation.image (sym : Symmetry) (equation : Equation ω Rat) : Equation ω Rat :=
  { equation.toRate.image sym with dimension := equation.dimension, label := equation.label }

/-- The image of a step. -/
def Step.image (sym : Symmetry) (s : Step Rat) : Step Rat where
  t := sym.time s.t
  y := s.y
  tNext := sym.time s.tNext
  yNext := s.yNext
  yp := sym.rate s.yp
  ypNext := sym.rate s.ypNext

/-- The image of a window. -/
def Window.image (sym : Symmetry) (w : Window Rat) : Window Rat where
  step := w.step.image sym
  start := sym.time w.start
  stop := sym.time w.stop
  yStart := w.yStart
  yStop := w.yStop

/-- What a caller computes is compared from the caller's side. -/
theorem Tally.agree_outside {β β' : Type} {bad : Error Rat → Error Rat → Prop} {ok : β → β' → Prop} {x : Effect ω Rat β}
    {x' : Effect ω Rat β'} (agree : x.Agree bad Eq ok x') : (outside x).Agree bad Eq ok (outside x') :=
  Effect.agree_within (fun _ _ same => congrArg Tally.world same)
    (fun _ _ _ _ same same' => by rw [same, same']) agree

namespace Rate

variable {f : Rate ω Rat}

theorem agree_call (t : Rat) (y : State Rat) :
    (f.call t y).Agree (Error.Alike sym) Eq (fun k k' => k' = sym.rate k) ((f.image sym).call (sym.time t) y) := by
  refine Effect.agree_bind (Effect.agree_modify fun s s' same => by rw [same]) fun _ _ _ => ?_
  refine Tally.agree_outside ?_
  change (f.eval t y).Agree _ _ _ (sym.rate <$> f.eval (sym.time (sym.time t)) y)
  rw [sym.time_time]
  exact Effect.agree_map (Error.alike_refl sym) _ _

theorem agree_compiledCall (t : Rat) (y : State Rat) :
    (f.compiledCall t y).Agree (Error.Alike sym) Eq (fun k k' => k' = sym.rate k)
      ((f.image sym).compiledCall (sym.time t) y) := by
  refine Effect.agree_lift ?_
  change Matched _ _ _ ((f.compiled (sym.time (sym.time t)) y).map sym.rate)
  rw [sym.time_time]
  exact .map (Error.alike_refl sym) _ _

theorem agree_compilingCall (t : Rat) (y : State Rat) :
    (f.compilingCall t y).Agree (Error.Alike sym) Eq (fun k k' => k' = sym.rate k)
      ((f.image sym).compilingCall (sym.time t) y) := by
  refine Effect.agree_bind (Effect.agree_modify fun s s' same => by rw [same]) fun _ _ _ => ?_
  refine Effect.agree_bind (Tally.agree_outside (Effect.agree_refl (Error.alike_refl sym) f.onCompile)) ?_
  intro _ _ _
  exact agree_compiledCall t y

end Rate

/-- A scheme leads to the same state under a symmetry. -/
theorem Scheme.agree_increment {scheme : Scheme} {f f' : Rat → State Rat → Effect σ Rat (State Rat)}
    (images : ∀ t y, (f t y).Agree (Error.Alike sym) Eq (fun k k' => k' = sym.rate k) (f' (sym.time t) y))
    (t : Rat) (y : State Rat) (h : Rat) (yp : State Rat) :
    (scheme.increment f t y h yp).Agree (Error.Alike sym) Eq Eq
      (scheme.increment f' (sym.time t) y (sym.time h) (sym.rate yp)) := by
  have fits : ∀ ys : List (State Rat), (liftM (requireFit ys) : Effect σ Rat Unit).Agree (Error.Alike sym) Eq Eq
      (liftM (requireFit ys) : Effect σ Rat Unit) := fun ys => Effect.agree_lift (.refl (Error.alike_refl sym) _)
  cases scheme with
  | euler =>
    refine Effect.agree_bind (fits [y, yp]) fun _ _ _ => Effect.agree_pure ?_
    rw [sym.time_smul_rate]
  | midpoint =>
    refine Effect.agree_bind (fits [y, yp]) fun _ _ _ => ?_
    rw [sym.mul_time, sym.time_smul_rate, ← sym.time_add]
    refine Effect.agree_bind (images _ _) ?_
    rintro k2 _ rfl
    refine Effect.agree_bind (fits [y, k2]) fun _ _ _ => Effect.agree_pure ?_
    rw [sym.time_smul_rate]
  | rk4 =>
    refine Effect.agree_bind (fits [y, yp]) fun _ _ _ => ?_
    rw [sym.mul_time, sym.time_smul_rate, ← sym.time_add, ← sym.time_add]
    refine Effect.agree_bind (images _ _) ?_
    rintro k2 _ rfl
    refine Effect.agree_bind (fits [y, k2]) fun _ _ _ => ?_
    rw [sym.time_smul_rate]
    refine Effect.agree_bind (images _ _) ?_
    rintro k3 _ rfl
    refine Effect.agree_bind (fits [y, k3]) fun _ _ _ => ?_
    rw [sym.time_smul_rate]
    refine Effect.agree_bind (images _ _) ?_
    rintro k4 _ rfl
    refine Effect.agree_bind (fits [yp, k2, k3, k4, y]) fun _ _ _ => Effect.agree_pure ?_
    have sum : sym.rate yp + (2.0 : Rat) * sym.rate k2 + (2.0 : Rat) * sym.rate k3 + sym.rate k4 =
        sym.rate (yp + (2.0 : Rat) * k2 + (2.0 : Rat) * k3 + k4) := by
      rw [sym.smul_rate, sym.smul_rate, ← sym.rate_add, ← sym.rate_add, ← sym.rate_add]
    rw [sum, sym.time_div, sym.time_smul_rate]
  | abstract => exact Effect.agree_throw (Error.alike_refl sym _)

namespace Stepper

variable {stepper : Stepper} {f : Rate ω Rat}

theorem agree_increment (t : Rat) (y : State Rat) (h : Rat) (yp : State Rat) :
    (stepper.increment f t y h yp).Agree (Error.Alike sym) Eq Eq
      (stepper.increment (f.image sym) (sym.time t) y (sym.time h) (sym.rate yp)) := by
  unfold increment
  refine Effect.agree_ite Iff.rfl (fun _ => Scheme.agree_increment Rate.agree_call t y h yp) fun _ => ?_
  refine Effect.agree_bind Effect.agree_get ?_
  rintro u _ rfl
  refine Effect.agree_ite Iff.rfl (fun _ => Scheme.agree_increment Rate.agree_compiledCall t y h yp) fun _ => ?_
  refine Effect.agree_bind (Scheme.agree_increment Rate.agree_compilingCall t y h yp) ?_
  rintro yNext _ rfl
  refine Effect.agree_bind (Effect.agree_modify fun s s' same => ?_) fun _ _ _ => Effect.agree_pure rfl
  rw [same]
  rfl

/-- A step of the image of a right-hand side is the image of the step. -/
theorem agree_advance (t : Rat) (y : State Rat) (h : Rat) (yp : Option (State Rat)) :
    (stepper.advance f t y h yp).Agree (Error.Alike sym) Eq (fun s s' => s' = s.image sym)
      (stepper.advance (f.image sym) (sym.time t) y (sym.time h) (yp.map sym.rate)) := by
  have checked : Matched (Error.Alike sym) (fun h h' => h' = sym.time h) (checkStepSize h)
      (checkStepSize (sym.time h)) := by
    by_cases zero : h = 0
    · simp only [checkStepSize, Scalar.isZero_rat, sym.time_eq_zero, zero, decide_true, Bool.true_or, if_true]
      exact .error (Error.alike_image rfl)
    · simp only [checkStepSize, Scalar.isZero_rat, sym.time_eq_zero, zero, decide_false, Scalar.isFinite_rat,
        Bool.not_true, Bool.or_false, Bool.false_eq_true, if_false]
      exact .ok rfl
  unfold advance
  refine Effect.agree_bind (Effect.agree_lift checked) ?_
  rintro h _ rfl
  have rest : ∀ start : State Rat, (do
      let yNext ← stepper.increment f t y h start
      let ypNext ← f.call (t + h) yNext
      return (⟨t, y, t + h, yNext, start, ypNext⟩ : Step Rat) : Effect (Tally ω) Rat (Step Rat)).Agree
        (Error.Alike sym) Eq (fun s s' => s' = s.image sym) (do
      let yNext ← stepper.increment (f.image sym) (sym.time t) y (sym.time h) (sym.rate start)
      let ypNext ← (f.image sym).call (sym.time t + sym.time h) yNext
      return (⟨sym.time t, y, sym.time t + sym.time h, yNext, sym.rate start, ypNext⟩ : Step Rat)) := by
    intro start
    refine Effect.agree_bind (agree_increment t y h start) ?_
    rintro yNext _ rfl
    rw [← sym.time_add]
    refine Effect.agree_bind (Rate.agree_call (t + h) yNext) ?_
    rintro ypNext _ rfl
    exact Effect.agree_pure rfl
  cases yp with
  | some start => exact rest start
  | none =>
    refine Effect.agree_bind (Rate.agree_call t y) ?_
    rintro start _ rfl
    exact rest start

end Stepper

namespace Step

variable (s : Step Rat)

theorem h_image : (s.image sym).h = sym.time s.h := (sym.time_sub _ _).symm

theorem position_image (t : Rat) : (s.image sym).position (sym.time t) = s.position t := by
  rw [position, position, h_image, quotient, quotient]
  simp only [image, Scalar.isZero_rat, sym.time_eq_zero, ← sym.time_sub, sym.time_div_time]

theorem cubic_image (θ : Rat) : (s.image sym).cubic θ = s.cubic θ := by
  have slopes : ∀ c d : Rat, c * (s.image sym).yp + d * (s.image sym).ypNext = sym.rate (c * s.yp + d * s.ypNext) := by
    intro c d
    rw [sym.rate_add, ← sym.smul_rate, ← sym.smul_rate]
    rfl
  rw [cubic, cubic, h_image, slopes, sym.time_smul_rate]
  rfl

end Step

namespace Window

variable [Spacing Rat] (w : Window Rat)

omit [Spacing Rat] in
/-- The bounds of the image of a window are those of the window, or they change places and signs. -/
theorem bounds_image (sym : Symmetry) : (sym.sign = 1 ∧ (w.image sym).bounds = w.bounds) ∨
    (sym.sign = -1 ∧ (w.image sym).bounds = (-w.bounds.2, -w.bounds.1)) := by
  rcases sym.unit with same | other
  · refine Or.inl ⟨same, ?_⟩
    simp only [bounds, image, Symmetry.time, same, one_mul]
  · refine Or.inr ⟨other, ?_⟩
    simp only [bounds, image, Symmetry.time, other, neg_one_mul, neg_lt_neg_iff]
    rcases lt_trichotomy w.start w.stop with before | equal | behind
    · rw [if_pos before, if_neg before.not_gt]
    · simp [equal]
    · rw [if_neg behind.not_gt, if_pos behind]

theorem slack_image (sym : Symmetry) : (w.image sym).slack = w.slack := by
  have length : (w.image sym).step.h = sym.time w.step.h := w.step.h_image
  unfold slack
  rcases w.bounds_image sym with ⟨_, same⟩ | ⟨_, swapped⟩
  · simp only [same, length, Scalar.abs_rat, sym.abs_time]
  · simp only [swapped, length, Scalar.abs_rat, sym.abs_time, Scalar.larger_rat, abs_neg, max_comm]

theorem admits_image (t : Rat) : (w.image sym).admits (sym.time t) = w.admits t := by
  have slack := w.slack_image sym
  unfold admits
  rcases w.bounds_image sym with ⟨sign, same⟩ | ⟨sign, swapped⟩
  · simp only [same, slack, Symmetry.time, sign, one_mul]
  · simp only [swapped, slack, Symmetry.time, sign, neg_one_mul]
    have low : -w.bounds.2 - w.slack ≤ -t ↔ t ≤ w.bounds.2 + w.slack :=
      ⟨fun h => by linarith, fun h => by linarith⟩
    have high : -t ≤ -w.bounds.1 + w.slack ↔ w.bounds.1 - w.slack ≤ t :=
      ⟨fun h => by linarith, fun h => by linarith⟩
    rw [decide_eq_decide.mpr low, decide_eq_decide.mpr high, Bool.and_comm]

theorem matched_check (t : Rat) : Matched (Error.Alike sym) Eq (w.check t) ((w.image sym).check (sym.time t)) := by
  rw [check, check, admits_image]
  split
  · exact .ok rfl
  · exact .error (Error.alike_image rfl)

/-- The image of a window answers with the same states at the images of times. -/
theorem matched_stateAt (t : Rat) :
    Matched (Error.Alike sym) Eq (w.stateAt t) ((w.image sym).stateAt (sym.time t)) := by
  refine (w.matched_check t).bind fun _ _ _ => ?_
  have start : (sym.time t == (w.image sym).start) = (t == w.start) := sym.time_beq t w.start
  have stop : (sym.time t == (w.image sym).stop) = (t == w.stop) := sym.time_beq t w.stop
  rw [start, stop]
  split
  · exact .ok rfl
  split
  · exact .ok rfl
  have place : (w.image sym).step.position (sym.time t) = w.step.position t := w.step.position_image t
  rw [place]
  refine (Matched.refl (Error.alike_refl sym) _).bind ?_
  rintro θ _ rfl
  refine (Matched.refl (Error.alike_refl sym) w.step.requireCubic).bind fun _ _ _ => .ok ?_
  exact (w.step.cubic_image θ).symm

/-- Windows are narrowed to images as they are. -/
theorem matched_restrict (start stop : Rat) : Matched (Error.Alike sym) (fun v v' => v' = v.image sym)
    (w.restrict start stop) ((w.image sym).restrict (sym.time start) (sym.time stop)) := by
  refine (w.matched_check start).bind fun _ _ _ => (w.matched_check stop).bind fun _ _ _ => ?_
  have along : (sym.time stop - sym.time start) * ((w.image sym).step.tNext - (w.image sym).step.t) =
      (stop - start) * (w.step.tNext - w.step.t) := by
    rw [← sym.time_sub]
    exact (congrArg _ (sym.time_sub _ _).symm).trans (sym.time_mul_time _ _)
  rw [along]
  split
  · exact .error (Error.alike_image rfl)
  refine (w.matched_stateAt start).bind ?_
  rintro yStart _ rfl
  refine (w.matched_stateAt stop).bind ?_
  rintro yStop _ rfl
  exact .ok rfl

theorem matched_truncate (stop : Rat) : Matched (Error.Alike sym) (fun v v' => v' = v.image sym)
    (w.truncate stop) ((w.image sym).truncate (sym.time stop)) :=
  w.matched_restrict w.start stop

omit [Spacing Rat] in
/-- The image of the image of a window is the window. -/
theorem image_image : (w.image sym).image sym = w := by
  have twice : ∀ k : State Rat, sym.rate (sym.rate k) = k := by
    intro k
    rw [Symmetry.rate, Symmetry.rate, Tensor.smul_smul, sym.sign_mul_sign, Tensor.one_smul]
  simp only [image, Step.image, sym.time_time, twice]

end Window

end Trajectory
