import Mathlib.Tactic
import Trajectory.Proofs.Monitor

/-!
How a search for events can fail.

A search between two samples moves on by at least half the tolerance whenever it skips a root, so the
number of roots that it may skip is never used up (`between_ends`). It starts Brent's method on a
change of sign, where nothing can fail but the isolation of the root and the switching function; where
the isolation cannot fail either is a property of the root search (`RootSearch.Settles`). If the
switching functions fail at the times of a window in some ways only, a whole scan can therefore fail in
these ways, and because a root cannot be isolated (`scan_error`).
-/

namespace Trajectory

variable {ω : Type} {forward : Bool}

/-- A root could not be isolated within the budget of a search. -/
def Error.IsIsolation : Error Rat → Prop
  | .notIsolated _ _ _ => True
  | _ => False

/-- A root search between points that are not farther apart than this, on a change of sign of a function
that fails in some ways only, ends with an answer or fails in these ways. -/
def RootSearch.Settles (ω : Type) (search : RootSearch Rat) (bad : Error Rat → Prop) (reach : Rat) : Prop :=
  ∀ (g : Rat → Effect ω Rat Rat) (a fa b fb : Rat), |b - a| ≤ reach → fa ≠ 0 → (fb = 0 ∨ (0 < fb ↔ fa < 0)) →
    (∀ x, Inside a b x → (g x).Ends (fun _ => True) bad) →
    (search.solve g a b (some fa) (some fb)).Ends (search.Answer g a fa b fb) bad

section

variable {bad : Error Rat → Prop} {reach : Rat}

/-- Whatever the two points are, if a root may not be isolated. -/
theorem RootSearch.settles_of_isolated {search : RootSearch Rat} (isolated : ∀ e, e.IsIsolation → bad e)
    (positive : 0 < search.tolerance) : search.Settles ω bad reach := by
  intro g a fa b fb _ start crossing each w
  refine ⟨fun r w' ran => solve_answer positive start crossing ran, fun e w' ran => ?_⟩
  rcases solve_failure positive start crossing ran with ⟨_, _, rfl⟩ | ⟨x, v, v', inside, failed⟩
  · exact isolated _ trivial
  · exact (each x inside v).2 e v' failed

namespace Channel

variable {c : Channel ω Rat} {g : Rat → Effect ω Rat Rat} {ta ga tb gb a b stop : Rat}

theorem nudged_ends (valid : c.settings.valid = true) (ahead : Precedes forward ta tb)
    (each : ∀ t, NotAfter forward ta t → NotAfter forward t tb → (g t).Ends (fun _ => True) bad) :
    (c.nudged forward g ta ga tb).Ends (fun p => NotAfter forward ta p.1 ∧ NotAfter forward p.1 tb) bad := by
  intro w
  refine ⟨fun p w' ran => ?_, fun e w' ran => ?_⟩
  · obtain ⟨before, reached, _⟩ := nudged_place valid ahead ran
    exact ⟨before, reached⟩
  · obtain ⟨behind, reached⟩ := offset_inside valid ahead
    rw [nudged_eq ahead] at ran
    split at ran
    · rcases Effect.runFrom_bind_error.mp ran with failed | ⟨_, _, _, impossible⟩
      · exact (each _ behind.notAfter reached w).2 e w' failed
      · rw [Effect.runFrom_pure] at impossible
        cases impossible
    · rw [Effect.runFrom_pure] at ran
      cases ran

/-- The way that is left between two points grows shorter by every move along it. -/
theorem way_left {m : Rat} (begun : NotAfter forward ta a) (moved : Precedes forward a b)
    (reached : NotAfter forward b tb) (far : m ≤ |b - a|) : |tb - b| + m ≤ |tb - ta| := by
  rw [((begun.trans moved.notAfter).trans reached).abs_sub, reached.abs_sub]
  rw [moved.notAfter.abs_sub] at far
  rw [notAfter_iff_sign] at begun
  linarith

/-- A search between two samples skips as many roots as it has to. -/
theorem between_ends (settles : c.settings.search.Settles ω bad reach) (valid : c.settings.valid = true)
    (ahead : Precedes forward ta tb) (short : |tb - ta| ≤ reach)
    (each : ∀ t, NotAfter forward ta t → NotAfter forward t tb → (g t).Ends (fun _ => True) bad) {rounds : Nat}
    (enough : |tb - ta| < rounds * (c.settings.convergence / 2)) :
    (c.between forward g tb gb rounds ta ga).Ends (fun _ => True) bad := by
  have positive : 0 < c.settings.convergence := (Settings.valid_iff.mp valid).2.1
  induction rounds generalizing ta ga with
  | zero =>
    rw [Nat.cast_zero, zero_mul] at enough
    exact absurd enough (abs_nonneg _).not_gt
  | succ rounds ih =>
    unfold between
    refine Effect.ends_bind (nudged_ends valid ahead each) ?_
    rintro ⟨x, gx⟩ ⟨before, reached⟩
    dsimp only at before reached ⊢
    by_cases crossing : crosses gx gb = true
    · rw [if_pos crossing]
      obtain ⟨start, change⟩ := crosses_iff.mp crossing
      have near : |tb - x| ≤ reach := by
        rw [ahead.notAfter.abs_sub] at short
        rw [reached.abs_sub]
        rw [notAfter_iff_sign] at before
        linarith
      have inner : ∀ t, Inside x tb t → NotAfter forward ta t ∧ NotAfter forward t tb := by
        intro t inside
        obtain ⟨up, down⟩ := inside_precedes reached inside
        exact ⟨before.trans up.notAfter, down.notAfter⟩
      refine Effect.ends_bind (settles g x gx tb gb near start change fun t inside =>
        each t (inner t inside).1 (inner t inside).2) fun root answer => ?_
      split
      · exact Effect.ends_pure trivial
      · have place : NotAfter forward ta root ∧ NotAfter forward root tb := by
          rcases answer.place with rfl | ⟨inside, _⟩
          · exact ⟨before.trans reached, .refl⟩
          · exact inner root inside
        refine Effect.ends_bind (each root place.1 place.2) fun gRoot _ => ?_
        by_cases atSample : root = tb
        · rw [if_pos (beq_iff_eq.mpr atSample)]
          exact Effect.ends_pure trivial
        · rw [if_neg fun same => atSample (beq_iff_eq.mp same)]
          obtain ⟨inside, far⟩ := answer.place.resolve_left atSample
          obtain ⟨up, down⟩ := inside_precedes reached inside
          have shorter := way_left before up down.notAfter far
          change |tb - root| + c.settings.convergence / 2 ≤ |tb - ta| at shorter
          refine ih down (by linarith) (fun t begun => each t (place.1.trans begun)) ?_
          push_cast at enough
          linarith
    · rw [if_neg crossing]
      exact Effect.ends_pure trivial

/-- The number of roots that may be skipped between two samples leaves room for all that can be. -/
theorem lt_roundsBetween (valid : c.settings.valid = true) :
    |tb - ta| < (c.roundsBetween ta tb : Nat) * (c.settings.convergence / 2) := by
  have positive : 0 < c.settings.convergence := (Settings.valid_iff.mp valid).2.1
  have count : c.roundsBetween ta tb = 4 * (|tb - ta| / c.settings.convergence).ceil.toNat + 8 := by
    rw [← Scalar.abs_rat]
    rfl
  have ratio : |tb - ta| / c.settings.convergence ≤ ((|tb - ta| / c.settings.convergence).ceil.toNat : Rat) := by
    have whole : ((|tb - ta| / c.settings.convergence).ceil : Rat) ≤
        (((|tb - ta| / c.settings.convergence).ceil.toNat : Int) : Rat) := by
      exact_mod_cast Int.self_le_toNat _
    exact Rat.le_ceil.trans (by exact_mod_cast whole)
  rw [div_le_iff₀ positive] at ratio
  rw [count]
  push_cast
  nlinarith

/-- A search through samples up to a time, up to which the switching function fails in some ways only. -/
theorem through_ends (settles : c.settings.search.Settles ω bad reach) (valid : c.settings.valid = true)
    {samples : List Rat} (ascending : Ascending forward ta samples)
    (near : (ta :: samples).IsChain fun s t => |t - s| ≤ reach) (inner : ∀ s ∈ samples, NotAfter forward s stop)
    (each : ∀ t, NotAfter forward ta t → NotAfter forward t stop → (g t).Ends (fun _ => True) bad) :
    (c.through forward g samples ta ga).Ends (fun _ => True) bad := by
  induction samples generalizing ta ga with
  | nil => exact Effect.ends_pure trivial
  | cons tb rest ih =>
    have first : Precedes forward ta tb := List.rel_of_pairwise_cons ascending List.mem_cons_self
    have reached : NotAfter forward tb stop := inner tb List.mem_cons_self
    unfold through
    refine Effect.ends_bind (each tb first.notAfter reached) fun gb _ => ?_
    obtain ⟨short, near⟩ := List.isChain_cons_cons.mp near
    refine Effect.ends_bind (between_ends settles valid first short
      (fun t begun before => each t begun (before.trans reached)) (lt_roundsBetween valid)) fun finding _ => ?_
    cases finding with
    | crossing found => exact Effect.ends_pure trivial
    | clear =>
      exact ih ascending.of_cons near (fun s mem => inner s (List.mem_cons_of_mem tb mem))
        fun t begun => each t (first.notAfter.trans begun)

variable [Spacing Rat] {window : Window Rat}

omit [Spacing Rat] in
theorem intervals_ok (c : Channel ω Rat) (stop : Rat) : ∃ n, c.intervals stop = .ok n := by
  unfold intervals
  split <;> simp

/-- The search of a channel fails only if the root search does between two samples, or in a way in which the switching
function fails between the reference point and the end of the window. -/
theorem firstRoot_settles (valid : c.settings.valid = true)
    (settles : ∀ n, c.intervals window.stop = .ok n → c.settings.search.Settles ω bad (|window.stop - c.tRef| / n))
    (each : ∀ t, NotAfter forward c.tRef t → NotAfter forward t window.stop →
      (c.along window t).Ends (fun _ => True) bad) : (c.firstRoot forward window).Ends (fun _ => True) bad := by
  unfold firstRoot
  by_cases ahead : Precedes forward c.tRef window.stop
  · rw [isAfter_iff.mpr ahead]
    obtain ⟨n, counted⟩ := c.intervals_ok window.stop
    have positive := intervals_pos counted
    have ascending := samples_ascending positive ahead
    have counts : (liftM (c.intervals window.stop) : Effect ω Rat Nat).Ends (fun m => m = n) bad := by
      rw [counted]
      exact Effect.ends_pure rfl
    refine Effect.ends_bind counts ?_
    rintro _ rfl
    exact through_ends (settles _ counted) valid ascending (samples_near positive) (samples_notAfter ascending) each
  · have passed : isAfter forward window.stop c.tRef = false :=
      Bool.eq_false_iff.mpr fun later => ahead (isAfter_iff.mp later)
    rw [passed]
    exact Effect.ends_pure trivial

/-- The search of a channel fails only if a root cannot be isolated, or in a way in which the switching function fails
between the reference point and the end of the window. -/
theorem firstRoot_ends (isolated : ∀ e, e.IsIsolation → bad e) (valid : c.settings.valid = true)
    (each : ∀ t, NotAfter forward c.tRef t → NotAfter forward t window.stop →
      (c.along window t).Ends (fun _ => True) bad) : (c.firstRoot forward window).Ends (fun _ => True) bad :=
  firstRoot_settles valid
    (fun _ _ => RootSearch.settles_of_isolated isolated (Settings.valid_iff.mp valid).2.1) each

end Channel

end

namespace Monitor

variable [Spacing Rat] {window : Window Rat} {bad : Error Rat → Prop}

theorem candidates_ends {base : Nat} {channels : List (Channel ω Rat)}
    (each : ∀ c ∈ channels, (c.firstRoot forward window).Ends (fun _ => True) bad) :
    (candidates forward window base channels).Ends (fun _ => True) bad := by
  induction channels generalizing base with
  | nil => exact Effect.ends_pure trivial
  | cons c rest ih =>
    unfold candidates
    refine Effect.ends_bind (each c List.mem_cons_self) fun found _ => ?_
    refine Effect.ends_bind (ih fun c mem => each c (List.mem_cons_of_mem _ mem)) fun later _ => ?_
    cases found <;> exact Effect.ends_pure trivial

/-- A scan fails only if the search of a channel does. -/
theorem scan_error {m : Monitor ω Rat} {v : ω} {e : Error Rat} {u : Monitor ω Rat × ω}
    (each : ∀ c ∈ m.channels, (c.firstRoot m.forward window).Ends (fun _ => True) bad)
    (failed : (scan window).runFrom (m, v) = (.error e, u)) : bad e := by
  rw [scan, Effect.runFrom_bind, change, Effect.runFrom_modify] at failed
  dsimp only at failed
  rw [Effect.runFrom_bind, Effect.runFrom_get] at failed
  dsimp only at failed
  rcases Effect.runFrom_bind_error.mp failed with failed | ⟨found, u', _, impossible⟩
  · rw [Effect.runFrom_onSecond, Prod.mk.injEq] at failed
    exact (candidates_ends each v).2 e _ (Prod.ext failed.1 rfl)
  · rw [change, Effect.runFrom_bind, Effect.runFrom_modify] at impossible
    cases impossible

end Monitor

end Trajectory
