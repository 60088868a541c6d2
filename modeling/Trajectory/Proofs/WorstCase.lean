import Mathlib.Tactic
import Trajectory.Proofs.Isolation
import Trajectory.Proofs.RootSearch
import Trajectory.Proofs.Timer

/-!
How many rounds a root search takes at most.

`Halvings` counts how often the way across a bracket and its last two moves can be halved before they are as short as
half the tolerance. A round that does not answer spends one of the rounds that these counts leave
(`Bracket.Scaled.following`): a bisection and a change of sign across the last move halve the way, after which the
moves are no longer than the way; an interpolated move is less than half as long as the move before the last, and
one of the two counts for the moves goes down. The counts of a whole search are those of its interval, so that a
budget quadratic in them is never used up, whatever the function is (`RootSearch.settles_of_budget`).
`RootSearch.budget_suffices` says this of a search and of the event search that uses it.
-/

namespace Trajectory

variable {ω : Type}

/-- How often lengths can be halved before they are as short as half the tolerance. -/
structure Halvings where
  /-- The way from the current iterate to the blocking end. -/
  way : Nat
  /-- The move before the last. -/
  before : Nat
  /-- The last move. -/
  last : Nat

namespace Halvings

/-- The rounds that can be made before the lengths are used up. -/
def rounds (h : Halvings) : Nat := h.way ^ 2 + h.before + h.last

/-- The same count for the way and the two moves. -/
def even (n : Nat) : Halvings := ⟨n, n, n⟩

theorem even_rounds_lt (n : Nat) (h : Halvings) (way : h.way = n + 1) : (even n).rounds < h.rounds := by
  simp only [rounds, even, way]
  nlinarith

end Halvings

namespace Bracket

variable {b moved : Bracket Rat} {tolerance : Rat} {h : Halvings} {n : Nat}

/-- The lengths of a bracket, measured in halves of the tolerance that have been doubled. -/
structure Scaled (tolerance : Rat) (h : Halvings) (b : Bracket Rat) : Prop where
  way : |b.xBlk - b.xCur| ≤ tolerance / 2 * 2 ^ h.way
  before : |b.sPre| ≤ tolerance / 2 * 2 ^ h.before
  last : |b.sCur| ≤ tolerance / 2 * 2 ^ h.last
  /-- No move is longer than the bound on the way. -/
  before_le : h.before ≤ h.way
  last_le : h.last ≤ h.way

theorem scaled_even (way : |b.xBlk - b.xCur| ≤ tolerance / 2 * 2 ^ n) (before : |b.sPre| ≤ tolerance / 2 * 2 ^ n)
    (last : |b.sCur| ≤ tolerance / 2 * 2 ^ n) : b.Scaled tolerance (.even n) :=
  ⟨way, before, last, le_rfl, le_rfl⟩

/-- Which end is the current iterate does not matter. -/
theorem Scaled.ordered (scaled : b.Scaled tolerance h) : b.ordered.Scaled tolerance h := by
  rw [ordered_eq]
  split
  · exact ⟨by rw [abs_sub_comm]; exact scaled.way, scaled.before, scaled.last, scaled.before_le, scaled.last_le⟩
  · exact scaled

/-- A bracket that is still open can be halved. -/
theorem Scaled.way_pos (scaled : b.Scaled tolerance h) (positive : 0 < tolerance)
    (wide : b.margin tolerance ≤ |b.halfway|) : 0 < h.way := by
  by_contra! spent
  have way := scaled.way
  rw [Nat.le_zero.mp spent, pow_zero] at way
  have half := b.abs_halfway
  have least := b.half_le_margin tolerance
  linarith

/-- The move is interpolated, where the moves before it allow one of its length, or goes half the way. -/
theorem strides_cases {before s : Rat} (chosen : b.strides tolerance = .ok (before, s)) :
    (before = b.sCur ∧ b.margin tolerance < |b.sPre| ∧ 2 * |s| < |b.sPre|) ∨ (before = b.halfway ∧ s = b.halfway) := by
  unfold strides at chosen
  simp only [Scalar.abs_rat, Scalar.smaller_rat] at chosen
  split at chosen
  · rename_i interpolates
    obtain ⟨s', _, chosen⟩ := except_bind_ok.mp chosen
    split at chosen
    · rename_i short
      cases chosen
      have bound := (lt_min_iff.mp short).1
      norm_num at bound
      exact Or.inl ⟨rfl, interpolates.1, bound⟩
    · cases chosen
      exact Or.inr ⟨rfl, rfl⟩
  · cases chosen
    exact Or.inr ⟨rfl, rfl⟩

theorem abs_target_sub (b : Bracket Rat) (s : Rat) (positive : 0 < tolerance) :
    |b.target tolerance s - b.xCur| = max |s| (b.margin tolerance) := by
  have delta : 0 < b.margin tolerance := margin_pos positive
  simp only [target, Scalar.abs_rat, Scalar.isPositive_rat, decide_eq_true_eq]
  split
  · rename_i long
    rw [add_sub_cancel_left, max_eq_left long.le]
  · rename_i short
    rw [max_eq_right (not_lt.mp short)]
    split
    · rw [add_sub_cancel_left, abs_of_pos delta]
    · rw [add_sub_cancel_left, abs_neg, abs_of_pos delta]

/-- What a round changes. -/
theorem advanced_cases (positive : 0 < tolerance) (chosen : b.advanced tolerance = .ok moved) :
    moved.xPre = b.xCur ∧ moved.xBlk = b.xBlk ∧ |moved.xCur - b.xCur| = max |moved.sCur| (b.margin tolerance) ∧
      ((moved.sPre = b.sCur ∧ b.margin tolerance < |b.sPre| ∧ 2 * |moved.sCur| < |b.sPre|) ∨
        (moved.sPre = b.halfway ∧ moved.sCur = b.halfway)) := by
  obtain ⟨⟨before, s⟩, strode, chosen⟩ := except_bind_ok.mp chosen
  cases chosen
  exact ⟨rfl, rfl, b.abs_target_sub s positive, strides_cases strode⟩

/-- The lengths after a move of a bracket to a point between its ends: those of the last move, if the function changes
sign across it, and otherwise those of the rest of the way. -/
theorem Scaled.of_moved {y : Rat}
    (across : |moved.xCur - moved.xPre| ≤ tolerance / 2 * 2 ^ n) (along : moved.Scaled tolerance h) :
    (moved.following y).Scaled tolerance (.even n) ∨ (moved.following y).Scaled tolerance h := by
  rw [following, renewed_eq]
  split
  · have back : |moved.xPre - moved.xCur| ≤ tolerance / 2 * 2 ^ n := by rwa [abs_sub_comm]
    exact Or.inl (Scaled.ordered (scaled_even back across across))
  · exact Or.inr (Scaled.ordered ⟨along.way, along.before, along.last, along.before_le, along.last_le⟩)

/-- A round that goes on spends one of the rounds that are left. -/
theorem Scaled.following (scaled : b.Scaled tolerance h) (positive : 0 < tolerance)
    (wide : b.margin tolerance ≤ |b.halfway|) (chosen : b.advanced tolerance = .ok moved)
    (inside : Inside b.xCur b.xBlk moved.xCur) (y : Rat) :
    ∃ h' : Halvings, (moved.following y).Scaled tolerance h' ∧ h'.rounds < h.rounds := by
  obtain ⟨n, halved⟩ := Nat.exists_eq_succ_of_ne_zero (scaled.way_pos positive wide).ne'
  obtain ⟨pre, blk, length, moves⟩ := advanced_cases positive chosen
  have spent := Halvings.even_rounds_lt n h halved
  have whole := inside.abs_add
  have half := b.abs_halfway
  have way := scaled.way
  rw [halved, pow_succ] at way
  have halfway : |b.halfway| ≤ tolerance / 2 * 2 ^ n := by linarith
  have rest : |moved.xBlk - moved.xCur| = |b.xBlk - b.xCur| - max |moved.sCur| (b.margin tolerance) := by
    rw [blk, abs_sub_comm, ← length]
    linarith
  rcases moves with ⟨before, long, short⟩ | ⟨before, last⟩
  · -- an interpolated move is shorter than half the move before the last
    have before_pos : 0 < h.before := by
      by_contra! spent
      have bound := scaled.before
      rw [Nat.le_zero.mp spent, pow_zero] at bound
      have least := b.half_le_margin tolerance
      linarith
    obtain ⟨m, spare⟩ := Nat.exists_eq_succ_of_ne_zero before_pos.ne'
    have bound := scaled.before
    rw [spare, pow_succ] at bound
    have last : |moved.sCur| ≤ tolerance / 2 * 2 ^ m := by linarith
    have less : m ≤ n := by
      have order := scaled.before_le
      omega
    have across : |moved.xCur - moved.xPre| ≤ tolerance / 2 * 2 ^ n := by
      rw [pre, length]
      refine max_le (last.trans ?_) (wide.trans halfway)
      gcongr
      norm_num
    have along : moved.Scaled tolerance ⟨h.way, h.last, m⟩ := by
      have delta : 0 < b.margin tolerance := margin_pos positive
      refine ⟨?_, by rw [before]; exact scaled.last, last, scaled.last_le, ?_⟩
      · have moves := le_max_right |moved.sCur| (b.margin tolerance)
        linarith [scaled.way]
      · dsimp only
        omega
    rcases along.of_moved across with scaled | scaled
    · exact ⟨_, scaled, spent⟩
    · refine ⟨_, scaled, ?_⟩
      simp only [Halvings.rounds, spare]
      omega
  · rw [last, max_eq_left wide] at length rest
    have across : |moved.xCur - moved.xPre| ≤ tolerance / 2 * 2 ^ n := by rwa [pre, length]
    have along : moved.Scaled tolerance (.even n) :=
      scaled_even (by linarith) (by rwa [before]) (by rwa [last])
    rcases along.of_moved across with scaled | scaled
    · exact ⟨_, scaled, spent⟩
    · exact ⟨_, scaled, spent⟩

/-- A search begins with the lengths of its interval. -/
theorem scaled_initial {a fa b fb : Rat} (short : |b - a| ≤ tolerance / 2 * 2 ^ n) :
    (initial a fa b fb).renewed.ordered.Scaled tolerance (.even n) := by
  have back : |a - b| ≤ tolerance / 2 * 2 ^ n := by rwa [abs_sub_comm]
  rw [renewed_eq]
  split <;> exact Scaled.ordered (scaled_even back short short)

end Bracket

namespace RootSearch

variable {search : RootSearch Rat} {f : Rat → Effect ω Rat Rat} {bad : Error Rat → Prop} {a b : Rat}

/-- A search ends within the rounds that the lengths of its bracket leave, unless the function fails. -/
theorem refine_ends (positive : 0 < search.tolerance) {endPositive : Bool} {left : Nat} {factor : Rat}
    {bracket : Bracket Rat} {h : Halvings} (moved : bracket.Moved) (facing : bracket.Facing factor)
    (held : bracket.Holds fun x _ => Between a b x)
    (scaled : bracket.renewed.ordered.Scaled search.tolerance h) (enough : h.rounds ≤ left)
    (each : ∀ x, Inside a b x → (f x).Ends (fun _ => True) bad) :
    (search.refine f endPositive left bracket).Ends (fun _ => True) bad := by
  induction left generalizing bracket h with
  | zero =>
    cases answer : bracket.renewed.ordered.answer? search.tolerance endPositive with
    | some x =>
      rw [refine_answer answer]
      exact Effect.ends_pure trivial
    | none =>
      have wide := scaled.way_pos positive (Bracket.answer?_eq_none answer).2
      have square : 0 < h.way ^ 2 := Nat.pow_pos wide
      unfold Halvings.rounds at enough
      omega
  | succ left ih =>
    cases answer : bracket.renewed.ordered.answer? search.tolerance endPositive with
    | some x =>
      rw [refine_answer answer]
      exact Effect.ends_pure trivial
    | none =>
      have known := Bracket.holds_ordered held
      obtain ⟨next, advanced, ⟨inside, _⟩, ⟨xPre, _, xBlk, _⟩, again⟩ :=
        Bracket.advanced_moved (Bracket.ordered_of_moved moved) (Bracket.facing_ordered moved facing) positive answer
      have place : Inside a b next.xCur := inside.mono known.2.1 known.2.2
      rw [refine_succ answer advanced]
      refine Effect.ends_bind (each _ place) fun y _ => ?_
      obtain ⟨h', smaller, spent⟩ :=
        scaled.following positive (Bracket.answer?_eq_none answer).2 advanced inside y
      refine ih (again y).1 (again y).2 ⟨?_, Or.inl place, ?_⟩ smaller (by omega)
      · rw [xPre]
        exact known.2.1
      · rw [xBlk]
        exact known.2.2

/-- A budget that is quadratic in the number of halvings of the interval is never used up. -/
theorem settles_of_budget {K : Nat} {reach : Rat} (positive : 0 < search.tolerance)
    (enough : (K + 2) ^ 2 ≤ search.budget + 1) (short : reach ≤ search.tolerance * 2 ^ K) :
    search.Settles ω bad reach := by
  intro g a fa b fb near start crossing each w
  refine ⟨fun r w' ran => solve_answer positive start crossing ran, ?_⟩
  suffices ends : (search.solve g a b (some fa) (some fb)).Ends (fun _ => True) bad from (ends w).2
  by_cases far : fb = 0
  · rw [far, solve_root start]
    exact Effect.ends_pure trivial
  have signs := mul_neg_of_opposite start far (crossing.resolve_left far)
  rw [solve_refine start far signs]
  by_cases point : a = b
  · subst point
    intro v
    rw [refine_point positive]
    exact ⟨fun _ _ _ => trivial, fun _ _ impossible => nomatch impossible⟩
  have length : |b - a| ≤ search.tolerance / 2 * 2 ^ (K + 1) := by
    rw [pow_succ]
    linarith
  have rounds : (Halvings.even (K + 1)).rounds ≤ search.budget := by
    have square : (K + 2) ^ 2 = (K + 1) ^ 2 + (K + 1) + (K + 1) + 1 := by ring
    simp only [Halvings.rounds, Halvings.even]
    omega
  exact refine_ends positive (Bracket.initial_moved point signs) (Bracket.initial_facing point signs)
    ⟨Or.inr (Or.inl rfl), Or.inr (Or.inr rfl), Or.inr (Or.inl rfl)⟩ (Bracket.scaled_initial length) rounds each

/-- With a budget of `4 * (K + 2) ^ 2` calls, a search over an interval that is at most `2 ^ K` tolerances long
answers, whatever the function is. Therefore the search of a channel, if its intervals are as short, fails only as
the switching function does between the reference point and the end of the window. -/
theorem budget_suffices [Spacing Rat] (K : Nat) :
    (∀ (search : RootSearch Rat) (f : Rat → Effect ω Rat Rat) (F : Rat → Rat) (calls : ω → List Rat) (a b : Rat)
      (fa fb : Option Rat) (w : ω),
      0 < search.tolerance → 4 * (K + 2) ^ 2 ≤ search.budget → Computes f F calls → a ≠ b →
      |b - a| ≤ search.tolerance * 2 ^ K → F a * F b < 0 → (∀ y ∈ fa, y = F a) → (∀ y ∈ fb, y = F b) →
      ∃ r w', (search.solve f a b fa fb).runFrom w = (.ok r, w') ∧ search.Isolates F a b r) ∧
    ∀ (c : Channel ω Rat) (forward : Bool) (window : Window Rat) (n : Nat),
      c.settings.valid = true → 4 * (K + 2) ^ 2 ≤ c.settings.maxIterations → c.intervals window.stop = .ok n →
      |window.stop - c.tRef| ≤ n * (c.settings.convergence * 2 ^ K) →
      (c.firstRoot forward window).Ends (fun _ => True) fun e =>
        ∃ t, NotAfter forward c.tRef t ∧ NotAfter forward t window.stop ∧ (c.along window t).Raises e := by
  have least : (K + 2) ^ 2 ≤ 4 * (K + 2) ^ 2 := Nat.le_mul_of_pos_left _ (by norm_num)
  constructor
  · intro search f F calls a b fa fb w positive enough computes apart short change givenA givenB
    have start : F a ≠ 0 := left_ne_zero_of_mul change.ne
    have crossing : F b = 0 ∨ (0 < F b ↔ F a < 0) := Or.inr (opposite_of_mul_neg change)
    obtain ⟨v, _, opened⟩ := search.solve_opening computes givenA givenB w
    have unfailing : ∀ x, Inside a b x → (f x).Ends (fun _ => True) fun _ => False := by
      intro x _ u
      refine ⟨fun _ _ _ => trivial, fun e u' failed => ?_⟩
      have answer := computes.answers x u
      rw [failed] at answer
      cases answer
    have ends := settles_of_budget positive (by omega) short f a (F a) b (F b) le_rfl start crossing unfailing v
    rw [opened]
    cases outcome : (search.solve f a b (some (F a)) (some (F b))).runFrom v with
    | mk result w' =>
      cases result with
      | ok r => exact ⟨r, w', rfl, (ends.1 r w' outcome).isolates computes change⟩
      | error e => exact (ends.2 e w' outcome).elim
  · intro c forward window n valid enough counted short
    have positive := (Settings.valid_iff.mp valid).2.1
    refine Channel.firstRoot_settles valid (fun m counted' => ?_) fun t begun reached w =>
      ⟨fun _ _ _ => trivial, fun e w' failed => ⟨t, begun, reached, w, w', failed⟩⟩
    obtain rfl : n = m := Except.ok.inj (counted.symm.trans counted')
    have count : (0 : Rat) < n := Nat.cast_pos.mpr (Channel.intervals_pos counted)
    refine settles_of_budget (K := K) positive ?_ ((div_le_iff₀ count).mpr ?_)
    · exact least.trans (enough.trans (Nat.le_succ _))
    · exact short.trans_eq (mul_comm _ _)

/-- A search for the cube root of two over four tolerances, and the search for the first root of a
dip over as many. -/
theorem budget_suffices_excess :
    letI := Spacing.gapless
    let c := Channel.awaiting (.dip (1 / 3) 2) ⟨none, 1 / 4, 64, none⟩ (2 / 3)
    let window := Window.ofStep .steady
    ((0 : Rat) < 1 / 2 ∧ 4 * (2 + 2) ^ 2 ≤ 64 ∧ Computes (noting excess) excess id ∧ (2 : Rat) ≠ 0 ∧
      |(0 : Rat) - 2| ≤ 1 / 2 * 2 ^ 2 ∧ excess 2 * excess 0 < 0 ∧ (∀ y ∈ (none : Option Rat), y = excess 2) ∧
      (∀ y ∈ some (-2 : Rat), y = excess 0) ∧
      ∃ r w', ((⟨1 / 2, 64⟩ : RootSearch Rat).solve (noting excess) 2 0 none (some (-2))).runFrom [] = (.ok r, w') ∧
        (⟨1 / 2, 64⟩ : RootSearch Rat).Isolates excess 2 0 r) ∧
    c.settings.valid = true ∧ 4 * (2 + 2) ^ 2 ≤ c.settings.maxIterations ∧ c.intervals window.stop = .ok 1 ∧
    |window.stop - c.tRef| ≤ (1 : Nat) * (c.settings.convergence * 2 ^ 2) ∧
    (c.firstRoot true window).Ends (fun _ => True) fun e =>
      ∃ t, NotAfter true c.tRef t ∧ NotAfter true t window.stop ∧ (c.along window t).Raises e := by
  let := Spacing.gapless
  intro c window
  have positive : (0 : Rat) < 1 / 2 := by norm_num
  have apart : (2 : Rat) ≠ 0 := by norm_num
  have way : |(0 : Rat) - 2| ≤ 1 / 2 * 2 ^ 2 := by norm_num
  have change : excess 2 * excess 0 < 0 := by norm_num [excess]
  have givenA : ∀ y ∈ (none : Option Rat), y = excess 2 := by simp
  have givenB : ∀ y ∈ some (-2 : Rat), y = excess 0 := by norm_num [excess]
  have valid : c.settings.valid = true := by decide +kernel
  have counted : c.intervals window.stop = .ok 1 := by decide +kernel
  have short : |window.stop - c.tRef| ≤ (1 : Nat) * (c.settings.convergence * 2 ^ 2) := by decide +kernel
  exact ⟨⟨positive, le_rfl, computes_noting excess, apart, way, change, givenA, givenB,
      (budget_suffices 2).1 _ _ _ _ _ _ _ _ _ positive le_rfl (computes_noting excess) apart way change givenA givenB⟩,
    valid, le_rfl, counted, short, (budget_suffices 2).2 c true window 1 valid le_rfl counted short⟩

end RootSearch

end Trajectory
