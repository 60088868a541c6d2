import Mathlib.Tactic
import Trajectory.Bracket
import Trajectory.Proofs.Exact
import Trajectory.Proofs.Outcome

/-!
The bracket of a root search and where its answer lies.

`Bracket.Ordered` is what holds of the three points once their roles are restored: the blocking end
and the current iterate have values of opposite signs, and the previous iterate is either the
blocking end or lies beyond the current one with a value of its sign. From it follows that no
quotient of a move has a zero denominator and that every move ends strictly between the current
iterate and the blocking end, at least half the tolerance away from both, which is what restores the
invariant a round later (`ordered_of_moved`). Besides, the end with the sign of the start stays on
the side of the start (`Bracket.Facing`).

`refine_outcome` says of all rounds together how they can end. `solve_answer` puts the answer on the
far side of the root, next to a point on its near side; `solve_failure` says what else can happen to
a search that starts on a change of sign.
-/

namespace Trajectory

/-- A point lies strictly between two others, in whichever order these are. -/
def Inside (a b x : Rat) : Prop := a < x ∧ x < b ∨ b < x ∧ x < a

theorem Inside.symm {a b x : Rat} (h : Inside a b x) : Inside b a x := Or.symm h

theorem Inside.ne_left {a b x : Rat} (h : Inside a b x) : x ≠ a := by
  rcases h with ⟨low, _⟩ | ⟨_, high⟩
  · exact low.ne'
  · exact high.ne

theorem Inside.ends_ne {a b x : Rat} (h : Inside a b x) : a ≠ b := by
  rintro rfl
  rcases h with ⟨low, high⟩ | ⟨low, high⟩ <;> exact lt_irrefl _ (low.trans high)

theorem Inside.mul_neg {a b x : Rat} (h : Inside a b x) : (a - x) * (b - x) < 0 := by
  rcases h with ⟨low, high⟩ | ⟨low, high⟩
  · exact mul_neg_of_neg_of_pos (by linarith) (by linarith)
  · exact mul_neg_of_pos_of_neg (by linarith) (by linarith)

/-- A move towards the other end that is shorter than the whole way ends strictly between the
two. -/
theorem inside_add {x y s : Rat} (towards : 0 < s * (y - x)) (short : |s| < |y - x|) :
    Inside x y (x + s) := by
  rcases pos_and_pos_or_neg_and_neg_of_mul_pos towards with ⟨up, way⟩ | ⟨down, way⟩
  · rw [abs_of_pos up, abs_of_pos way] at short
    exact Or.inl ⟨by linarith, by linarith⟩
  · rw [abs_of_neg down, abs_of_neg way] at short
    exact Or.inr ⟨by linarith, by linarith⟩

/-- A move of at least some length that leaves at least this length of the way ends strictly between
the two ends, and at least this length away from both. -/
theorem inside_add_far {x y s m : Rat} (positive : 0 < m) (towards : 0 < s * (y - x)) (long : m ≤ |s|)
    (short : |s| + m ≤ |y - x|) : Inside x y (x + s) ∧ m ≤ |x + s - x| ∧ m ≤ |x + s - y| := by
  refine ⟨inside_add towards (by linarith), by rwa [add_sub_cancel_left], ?_⟩
  have rest := abs_sub_abs_le_abs_sub (y - x) s
  rw [abs_sub_comm, ← sub_sub]
  linarith

/-- A point beside an interval is as far from any point inside as one of the ends. -/
theorem Inside.far {a x y z m : Rat} (inside : Inside x y z) (left : m ≤ |z - x|) (right : m ≤ |z - y|)
    (beside : ¬ Inside x y a) : m ≤ |z - a| := by
  rw [Inside] at beside
  push Not at beside
  rcases inside with ⟨low, high⟩ | ⟨low, high⟩
  · rw [abs_of_pos (sub_pos.mpr low)] at left
    rw [abs_of_neg (sub_neg.mpr high)] at right
    rcases lt_or_ge x a with behind | before
    · rw [abs_of_neg (by linarith [beside.1 behind])]
      linarith [beside.1 behind]
    · rw [abs_of_pos (by linarith)]
      linarith
  · rw [abs_of_neg (sub_neg.mpr high)] at left
    rw [abs_of_pos (sub_pos.mpr low)] at right
    rcases lt_or_ge y a with behind | before
    · rw [abs_of_neg (by linarith [beside.2 behind])]
      linarith [beside.2 behind]
    · rw [abs_of_pos (by linarith)]
      linarith

theorem not_inside_left {a b x y : Rat} (hx : Inside a b x ∨ x = a ∨ x = b) (hy : Inside a b y ∨ y = a ∨ y = b) :
    ¬ Inside x y a := by
  rintro (⟨low, high⟩ | ⟨low, high⟩) <;>
    rcases hx with (⟨_, _⟩ | ⟨_, _⟩) | rfl | rfl <;> rcases hy with (⟨_, _⟩ | ⟨_, _⟩) | rfl | rfl <;> linarith

/-- Signs may be compared through a third factor. -/
theorem mul_pos_of_mul_pos {x y z : Rat} (first : 0 < x * y) (second : 0 < y * z) : 0 < x * z := by
  have square : 0 < y * y := mul_self_pos.mpr (right_ne_zero_of_mul first.ne')
  have product : 0 < (y * y) * (x * z) := by
    calc 0 < x * y * (y * z) := mul_pos first second
      _ = (y * y) * (x * z) := by ring
  exact (pos_iff_pos_of_mul_pos product).mp square

theorem mul_neg_of_opposite {x y : Rat} (hx : x ≠ 0) (hy : y ≠ 0) (opposite : 0 < y ↔ x < 0) : y * x < 0 := by
  rcases lt_or_gt_of_ne hx with neg | pos
  · exact mul_neg_of_pos_of_neg (opposite.mpr neg) neg
  · have notPos : ¬ 0 < y := fun posY => pos.not_gt (opposite.mp posY)
    exact mul_neg_of_neg_of_pos (lt_of_le_of_ne (not_lt.mp notPos) hy) pos

theorem opposite_of_mul_neg {x y : Rat} (product : x * y < 0) : 0 < y ↔ x < 0 :=
  ⟨fun pos => neg_of_mul_neg_left product pos.le, fun neg => pos_of_mul_neg_right product neg.le⟩

theorem Inside.mono {a b x y z : Rat} (hx : Inside a b x ∨ x = a ∨ x = b)
    (hy : Inside a b y ∨ y = a ∨ y = b) (h : Inside x y z) : Inside a b z := by
  rcases hx with (⟨_, _⟩ | ⟨_, _⟩) | rfl | rfl <;>
    rcases hy with (⟨_, _⟩ | ⟨_, _⟩) | rfl | rfl <;>
    rcases h with ⟨_, _⟩ | ⟨_, _⟩ <;>
    first
      | (left; constructor <;> linarith)
      | (right; constructor <;> linarith)

theorem relativeTolerance_pos : (0 : Rat) < relativeTolerance := by
  norm_num [relativeTolerance]

namespace Bracket

/-- Whether a value of the function at a point is one of those that the three points of a bracket
hold. -/
def Holds (b : Bracket Rat) (known : Rat → Rat → Prop) : Prop :=
  known b.xPre b.fPre ∧ known b.xCur b.fCur ∧ known b.xBlk b.fBlk

/-- The bracket at the beginning of a round: the blocking end and the previous iterate are on the
two sides of a sign change, unless they are one point, and the current iterate is new. -/
def Moved (b : Bracket Rat) : Prop :=
  (b.xPre = b.xBlk ∧ b.fPre = b.fBlk ∧ b.xCur ≠ b.xBlk ∧ b.fCur * b.fBlk < 0) ∨
    (Inside b.xPre b.xBlk b.xCur ∧ b.fPre * b.fBlk < 0)

/-- The bracket once the roles of its points are restored. -/
structure Ordered (b : Bracket Rat) : Prop where
  /-- The blocking end is no root. -/
  blocked : b.fBlk ≠ 0
  /-- The current iterate is a root, or the function changes sign between it and the blocking
  end. -/
  opposed : b.fCur = 0 ∨ b.fCur * b.fBlk < 0
  /-- The current iterate is not the blocking end. -/
  apart : b.xCur ≠ b.xBlk
  /-- The previous iterate is the blocking end, or lies beyond the current iterate on its side of
  the sign change. -/
  behind : (b.xPre = b.xBlk ∧ b.fPre = b.fBlk) ∨
    (Inside b.xPre b.xBlk b.xCur ∧ (b.fCur ≠ 0 → 0 < b.fPre * b.fCur))

/-- The end of the bracket whose value has the sign of the start lies on the side of the start. The
factor is the way from the far end to the start times the value at the start. -/
def Facing (factor : Rat) (b : Bracket Rat) : Prop := 0 < factor * ((b.xBlk - b.xCur) * b.fBlk)

private theorem pos_ne_pos_iff {x y : Rat} (hx : x ≠ 0) (hy : y ≠ 0) :
    (decide (0 < x) != decide (0 < y)) = true ↔ x * y < 0 := by
  rcases lt_or_gt_of_ne hx with negX | posX <;> rcases lt_or_gt_of_ne hy with negY | posY
  · simp [negX.not_gt, negY.not_gt, (mul_pos_of_neg_of_neg negX negY).le]
  · simp [negX.not_gt, posY, mul_neg_of_neg_of_pos negX posY]
  · simp [posX, negY.not_gt, mul_neg_of_pos_of_neg posX negY]
  · simp [posX, posY, (mul_pos posX posY).le]

/-- The blocking end is replaced exactly if the function changes sign between the last two
iterates. -/
theorem renewed_eq (b : Bracket Rat) : b.renewed =
    if b.fPre * b.fCur < 0 then
      { b with xBlk := b.xPre, fBlk := b.fPre, sPre := b.xCur - b.xPre, sCur := b.xCur - b.xPre }
    else b := by
  unfold renewed
  by_cases pre : b.fPre = 0
  · simp [pre]
  by_cases cur : b.fCur = 0
  · simp [cur]
  have signs := pos_ne_pos_iff pre cur
  simp only [Scalar.isZero_rat, Scalar.isPositive_rat, pre, cur, decide_false, Bool.not_false,
    Bool.true_and]
  by_cases change : b.fPre * b.fCur < 0
  · rw [if_pos (signs.mpr change), if_pos change]
  · rw [if_neg (fun h => change (signs.mp h)), if_neg change]

theorem ordered_eq (b : Bracket Rat) : b.ordered =
    if |b.fBlk| < |b.fCur| then
      { b with xPre := b.xCur, xCur := b.xBlk, xBlk := b.xCur,
               fPre := b.fCur, fCur := b.fBlk, fBlk := b.fCur }
    else b := by
  simp only [ordered, Scalar.abs_rat]

private theorem ordered_renewed {b : Bracket Rat} (moved : b.Moved) : b.renewed.Ordered := by
  rw [renewed_eq]
  rcases moved with ⟨samePoint, sameValue, apart, signs⟩ | ⟨inside, signs⟩
  · have change : b.fPre * b.fCur < 0 := by rw [sameValue, mul_comm]; exact signs
    rw [if_pos change]
    exact ⟨left_ne_zero_of_mul change.ne, Or.inr (by rw [mul_comm]; exact change),
      by rw [samePoint]; exact apart, Or.inl ⟨rfl, rfl⟩⟩
  · by_cases change : b.fPre * b.fCur < 0
    · rw [if_pos change]
      exact ⟨left_ne_zero_of_mul change.ne, Or.inr (by rw [mul_comm]; exact change),
        inside.ne_left, Or.inl ⟨rfl, rfl⟩⟩
    · rw [if_neg change]
      have blocked : b.fBlk ≠ 0 := right_ne_zero_of_mul signs.ne
      have kept : b.fCur ≠ 0 → 0 < b.fPre * b.fCur := fun cur =>
        lt_of_le_of_ne (not_lt.mp change) (mul_ne_zero (left_ne_zero_of_mul signs.ne) cur).symm
      refine ⟨blocked, ?_, inside.symm.ne_left, Or.inr ⟨inside, kept⟩⟩
      by_cases root : b.fCur = 0
      · exact Or.inl root
      · refine Or.inr ?_
        have square : 0 < b.fPre * b.fPre := mul_self_pos.mpr (left_ne_zero_of_mul signs.ne)
        have product : (b.fPre * b.fCur) * (b.fPre * b.fBlk) < 0 :=
          mul_neg_of_pos_of_neg (kept root) signs
        nlinarith

/-- At the beginning of every round the roles of the points can be restored. -/
theorem ordered_of_moved {b : Bracket Rat} (moved : b.Moved) : b.renewed.ordered.Ordered := by
  have renewed := ordered_renewed moved
  rw [ordered_eq]
  split
  · rename_i swapped
    have cur : b.renewed.fCur ≠ 0 := by
      intro root
      rw [root, abs_zero] at swapped
      exact absurd swapped (abs_nonneg _).not_gt
    refine ⟨cur, Or.inr ?_, renewed.apart.symm, Or.inl ⟨rfl, rfl⟩⟩
    simpa only [mul_comm] using renewed.opposed.resolve_left cur
  · exact renewed

/-- Restoring the roles permutes the points that are held. -/
theorem holds_ordered {b : Bracket Rat} {known : Rat → Rat → Prop} (h : b.Holds known) :
    b.renewed.ordered.Holds known := by
  obtain ⟨pre, cur, blk⟩ := h
  rw [ordered_eq, renewed_eq]
  split <;> split <;> exact ⟨by assumption, by assumption, by assumption⟩

theorem Facing.swapped {b : Bracket Rat} {factor : Rat} (facing : b.Facing factor) (opposed : b.fCur * b.fBlk < 0) :
    0 < factor * ((b.xCur - b.xBlk) * b.fCur) := by
  have way : 0 < (b.xBlk - b.xCur) * (b.xBlk - b.xCur) :=
    mul_self_pos.mpr (left_ne_zero_of_mul (right_ne_zero_of_mul facing.ne'))
  refine mul_pos_of_mul_pos facing ?_
  calc 0 < (b.xBlk - b.xCur) * (b.xBlk - b.xCur) * -(b.fCur * b.fBlk) := mul_pos way (neg_pos.mpr opposed)
    _ = (b.xBlk - b.xCur) * b.fBlk * ((b.xCur - b.xBlk) * b.fCur) := by ring

/-- Restoring the roles keeps the bracket facing the start. -/
theorem facing_ordered {b : Bracket Rat} {factor : Rat} (moved : b.Moved) (facing : b.Facing factor) :
    b.renewed.ordered.Facing factor := by
  have renewed : b.renewed.Facing factor := by
    rw [renewed_eq]
    split
    · refine mul_pos_of_mul_pos facing ?_
      rcases moved with ⟨samePoint, sameValue, apart, signs⟩ | ⟨inside, signs⟩
      · rw [samePoint, sameValue]
        exact mul_self_pos.mpr (right_ne_zero_of_mul facing.ne')
      · calc 0 < (b.xPre - b.xCur) * (b.xBlk - b.xCur) * (b.fPre * b.fBlk) :=
              mul_pos_of_neg_of_neg inside.mul_neg signs
          _ = (b.xBlk - b.xCur) * b.fBlk * ((b.xPre - b.xCur) * b.fPre) := by ring
    · exact facing
  have opposed := (ordered_renewed moved).opposed
  rw [ordered_eq]
  split
  · rename_i swapped
    have cur : b.renewed.fCur ≠ 0 := by
      intro root
      rw [root, abs_zero] at swapped
      exact absurd swapped (abs_nonneg _).not_gt
    exact renewed.swapped (opposed.resolve_left cur)
  · exact renewed

private theorem quotient_of_ne {x y : Rat} (nonzero : y ≠ 0) :
    (quotient x y : Except (Error Rat) Rat) = .ok (x / y) := by
  simp [quotient, nonzero]

private theorem secant_towards {c f w : Rat} (signs : c * f < 0) (apart : w ≠ 0) :
    0 < (-c * -w) / (c - f) * w := by
  have slope : 0 < c * (c - f) := by nlinarith [mul_self_nonneg c]
  have square : 0 < w * w := mul_self_pos.mpr apart
  have apartF : c - f ≠ 0 := right_ne_zero_of_mul slope.ne'
  have form : (-c * -w) / (c - f) * w = c * (c - f) * (w * w) / ((c - f) * (c - f)) := by
    field_simp
  rw [form]
  exact div_pos (mul_pos slope square) (mul_self_pos.mpr apartF)

private theorem parabola_towards {u v p c q : Rat} (sides : u * v < 0) (same : 0 < p * c)
    (opposite : c * q < 0) (shrunk : |c| < |p|) :
    (q - c) / v * ((p - c) / u) * (q - p) ≠ 0 ∧
      0 < (-c * (q * ((q - c) / v) - p * ((p - c) / u))) / ((q - c) / v * ((p - c) / u) * (q - p)) * v := by
  have hu : u ≠ 0 := left_ne_zero_of_mul sides.ne
  have hv : v ≠ 0 := right_ne_zero_of_mul sides.ne
  have rise : 0 < (p - c) * p ∧ 0 < (p - c) * c := by
    rcases pos_and_pos_or_neg_and_neg_of_mul_pos same with ⟨hp, hc⟩ | ⟨hp, hc⟩
    · rw [abs_of_pos hp, abs_of_pos hc] at shrunk
      exact ⟨mul_pos (by linarith) hp, mul_pos (by linarith) hc⟩
    · rw [abs_of_neg hp, abs_of_neg hc] at shrunk
      exact ⟨mul_pos_of_neg_of_neg (by linarith) hp, mul_pos_of_neg_of_neg (by linarith) hc⟩
  have fall : 0 < (q - c) * q ∧ (q - c) * c < 0 ∧ (q - p) * c < 0 := by
    refine ⟨?_, ?_, ?_⟩ <;> nlinarith [mul_self_nonneg q, mul_self_nonneg c]
  -- the two slopes have the sign of `-c * v`, so their product is positive
  have slopes : 0 < (q - c) / v * ((p - c) / u) := by
    have form : (q - c) / v * ((p - c) / u) = ((q - c) * c) * ((p - c) * c) * (u * v) / (c * u * v) ^ 2 := by
      have hc : c ≠ 0 := right_ne_zero_of_mul same.ne'
      field_simp
    have nonzero : c * u * v ≠ 0 := mul_ne_zero (mul_ne_zero (right_ne_zero_of_mul same.ne') hu) hv
    rw [form]
    exact div_pos (mul_pos_of_neg_of_neg (mul_neg_of_neg_of_pos fall.2.1 rise.2) sides) (by positivity)
  have bottom : (q - c) / v * ((p - c) / u) * (q - p) * c < 0 := by
    rw [mul_assoc]
    exact mul_neg_of_pos_of_neg slopes fall.2.2
  have top : 0 < (q * ((q - c) / v) - p * ((p - c) / u)) * v := by
    have form : (q * ((q - c) / v) - p * ((p - c) / u)) * v =
        (q - c) * q + (p - c) * p * (-(u * v)) / (u * u) := by
      field_simp
      ring
    rw [form]
    exact add_pos fall.1 (div_pos (mul_pos rise.1 (by linarith)) (mul_self_pos.mpr hu))
  generalize (q - c) / v * ((p - c) / u) * (q - p) = bot at bottom ⊢
  generalize q * ((q - c) / v) - p * ((p - c) / u) = num at top ⊢
  have hbot : bot ≠ 0 := left_ne_zero_of_mul bottom.ne
  refine ⟨hbot, ?_⟩
  have form : -c * num / bot * v = -(bot * c) * (num * v) / (bot * bot) := by
    field_simp
  rw [form]
  exact div_pos (mul_pos (by linarith) top) (mul_self_pos.mpr hbot)

/-- No quotient of an interpolated move fails, and the move leads towards the blocking end. -/
theorem interpolated_towards {b : Bracket Rat} (ordered : b.Ordered) (noRoot : b.fCur ≠ 0)
    (shrunk : |b.fCur| < |b.fPre|) :
    ∃ s, b.interpolated = .ok s ∧ 0 < s * (b.xBlk - b.xCur) := by
  have opposite := ordered.opposed.resolve_left noRoot
  have apart : b.xBlk - b.xCur ≠ 0 := sub_ne_zero.mpr ordered.apart.symm
  rcases ordered.behind with ⟨samePoint, sameValue⟩ | ⟨inside, kept⟩
  · have slope : b.fCur - b.fBlk ≠ 0 := by
      intro equal
      rw [sub_eq_zero.mp equal] at opposite
      exact (mul_self_nonneg b.fBlk).not_gt opposite
    have test : (b.xPre == b.xBlk) = true := beq_iff_eq.mpr samePoint
    refine ⟨_, ?_, secant_towards opposite apart⟩
    rw [interpolated, if_pos test, samePoint, sameValue, quotient_of_ne slope]
    congr 2
    ring
  · have test : ¬ (b.xPre == b.xBlk) = true := fun h => inside.ends_ne (beq_iff_eq.mp h)
    obtain ⟨bottom, towards⟩ := parabola_towards inside.mul_neg (kept noRoot) opposite shrunk
    have pre : b.xPre - b.xCur ≠ 0 := left_ne_zero_of_mul inside.mul_neg.ne
    refine ⟨_, ?_, towards⟩
    rw [interpolated, if_neg test, quotient_of_ne pre, quotient_of_ne apart]
    exact quotient_of_ne bottom

theorem abs_halfway (b : Bracket Rat) : 2 * |b.halfway| = |b.xBlk - b.xCur| := by
  have form : b.halfway = (b.xBlk - b.xCur) / 2 := by norm_num [halfway]; ring
  rw [form, abs_div, abs_of_pos (by norm_num : (0 : Rat) < 2)]
  ring

theorem margin_pos {b : Bracket Rat} {tolerance : Rat} (positive : 0 < tolerance) :
    0 < b.margin tolerance := by
  have slack : 0 ≤ relativeTolerance * |b.xCur| :=
    mul_nonneg relativeTolerance_pos.le (abs_nonneg _)
  norm_num [margin]
  linarith

theorem half_le_margin (b : Bracket Rat) (tolerance : Rat) : tolerance / 2 ≤ b.margin tolerance := by
  have slack : 0 ≤ relativeTolerance * |b.xCur| :=
    mul_nonneg relativeTolerance_pos.le (abs_nonneg _)
  norm_num [margin]
  linarith

/-- The chosen move leads towards the blocking end and leaves half the tolerance of the way to
it. -/
theorem strides_towards {b : Bracket Rat} {tolerance : Rat} (ordered : b.Ordered)
    (noRoot : b.fCur ≠ 0) (positive : 0 < tolerance) (wide : b.margin tolerance ≤ |b.halfway|) :
    ∃ before s, b.strides tolerance = .ok (before, s) ∧ 0 < s * (b.xBlk - b.xCur) ∧
      |s| + b.margin tolerance ≤ |b.xBlk - b.xCur| := by
  have apart : b.xBlk - b.xCur ≠ 0 := sub_ne_zero.mpr ordered.apart.symm
  have half := b.abs_halfway
  have bisection : 0 < b.halfway * (b.xBlk - b.xCur) ∧
      |b.halfway| + b.margin tolerance ≤ |b.xBlk - b.xCur| := by
    refine ⟨?_, by linarith⟩
    have form : b.halfway * (b.xBlk - b.xCur) = (b.xBlk - b.xCur) * (b.xBlk - b.xCur) / 2 := by
      norm_num [halfway]
      ring
    rw [form]
    exact half_pos (mul_self_pos.mpr apart)
  have delta : 0 < b.margin tolerance := margin_pos positive
  unfold strides
  simp only [Scalar.abs_rat, Scalar.smaller_rat]
  by_cases interpolates : b.margin tolerance < |b.sPre| ∧ |b.fCur| < |b.fPre|
  · obtain ⟨s, found, towards⟩ := interpolated_towards ordered noRoot interpolates.2
    rw [if_pos interpolates, found]
    by_cases short : 2.0 * |s| < min |b.sPre| (3.0 * |b.halfway| - b.margin tolerance)
    · have bound := (lt_min_iff.mp short).2
      norm_num at bound
      exact ⟨b.sCur, s, by simp [bind, Except.bind, short, pure, Except.pure], towards, by linarith⟩
    · exact ⟨b.halfway, b.halfway, by simp [bind, Except.bind, short, pure, Except.pure], bisection⟩
  · rw [if_neg interpolates]
    exact ⟨b.halfway, b.halfway, rfl, bisection⟩

theorem answer?_eq_none {b : Bracket Rat} {tolerance : Rat} {endPositive : Bool}
    (unanswered : b.answer? tolerance endPositive = none) : b.fCur ≠ 0 ∧ b.margin tolerance ≤ |b.halfway| := by
  simp only [answer?, Scalar.isZero_rat, Scalar.abs_rat, Bool.or_eq_true, decide_eq_true_eq] at unanswered
  split at unanswered
  · split at unanswered <;> cases unanswered
  · rename_i wide
    exact ⟨fun root => wide (Or.inl root), not_lt.mp fun short => wide (Or.inr short)⟩

private theorem short_way {b : Bracket Rat} {tolerance : Rat} (short : |b.halfway| < b.margin tolerance) :
    |b.xBlk - b.xCur| < tolerance + relativeTolerance * |b.xCur| := by
  have half := b.abs_halfway
  norm_num [margin] at short
  linarith

/-- The answer is a point that the bracket holds: a root, or the end on the demanded side of the
sign change, next to one on the other side. -/
theorem answer?_eq_some {b : Bracket Rat} {tolerance factor : Rat} {endPositive : Bool} {x : Rat}
    {known : Rat → Rat → Prop} (ordered : b.Ordered) (held : b.Holds known) (facing : b.Facing factor)
    (answered : b.answer? tolerance endPositive = some x) :
    ∃ y, known x y ∧ (y = 0 ∨ decide (0 < y) = endPositive ∧ ∃ z fz, known z fz ∧ y * fz < 0 ∧
      0 < factor * ((z - x) * fz) ∧ |x - z| < tolerance + relativeTolerance * max |x| |z|) := by
  have wider : ∀ x z : Rat, tolerance + relativeTolerance * |x| ≤ tolerance + relativeTolerance * max |x| |z| ∧
      tolerance + relativeTolerance * |x| ≤ tolerance + relativeTolerance * max |z| |x| := by
    intro x z
    have bound := relativeTolerance_pos.le
    exact ⟨by gcongr; exact le_max_left _ _, by gcongr; exact le_max_right _ _⟩
  simp only [answer?, Scalar.isZero_rat, Scalar.abs_rat, Scalar.isPositive_rat, Bool.or_eq_true, decide_eq_true_eq,
    beq_iff_eq] at answered
  split at answered
  · rename_i short
    by_cases root : b.fCur = 0
    · rw [if_pos (Or.inl root)] at answered
      cases answered
      exact ⟨b.fCur, held.2.1, Or.inl root⟩
    · have opposed := ordered.opposed.resolve_left root
      have near := short_way (short.resolve_left root)
      split at answered
      · rename_i side
        cases answered
        refine ⟨b.fCur, held.2.1, Or.inr ⟨side.resolve_left root, b.xBlk, b.fBlk, held.2.2, opposed, facing, ?_⟩⟩
        rw [abs_sub_comm]
        exact near.trans_le (wider _ _).1
      · rename_i side
        cases answered
        push Not at side
        have other := (pos_ne_pos_iff root ordered.blocked).mpr opposed
        rw [bne_iff_ne, Bool.eq_not.mpr side.2] at other
        refine ⟨b.fBlk, held.2.2, Or.inr ⟨(Bool.not_not_eq.mp other).symm, b.xCur, b.fCur, held.2.1, ?_,
          facing.swapped opposed, near.trans_le (wider _ _).2⟩⟩
        rwa [mul_comm]
  · cases answered

/-- The next abscissa lies strictly between the current iterate and the blocking end, at least half
the tolerance away from both. -/
theorem target_inside {b : Bracket Rat} {tolerance s : Rat} (positive : 0 < tolerance)
    (wide : b.margin tolerance ≤ |b.halfway|) (towards : 0 < s * (b.xBlk - b.xCur))
    (short : |s| + b.margin tolerance ≤ |b.xBlk - b.xCur|) :
    Inside b.xCur b.xBlk (b.target tolerance s) ∧ b.margin tolerance ≤ |b.target tolerance s - b.xCur| ∧
      b.margin tolerance ≤ |b.target tolerance s - b.xBlk| := by
  have half := b.abs_halfway
  have delta : 0 < b.margin tolerance := margin_pos positive
  have form : b.halfway = (b.xBlk - b.xCur) / 2 := by norm_num [halfway]; ring
  have least : |b.margin tolerance| + b.margin tolerance ≤ |b.xBlk - b.xCur| := by
    rw [abs_of_pos delta]
    linarith
  simp only [target, Scalar.abs_rat, Scalar.isPositive_rat, decide_eq_true_eq]
  split
  · rename_i long
    exact inside_add_far delta towards long.le short
  · split
    · rename_i up
      exact inside_add_far delta (mul_pos delta (by linarith)) (le_abs_self _) least
    · rename_i up
      have down : b.xBlk - b.xCur < 0 := by
        refine lt_of_le_of_ne (by linarith) fun zero => ?_
        rw [zero, abs_zero] at half
        linarith
      rw [← abs_neg] at least
      have long : b.margin tolerance ≤ |-b.margin tolerance| := by
        rw [abs_neg]
        exact le_abs_self _
      exact inside_add_far delta (mul_pos_of_neg_of_neg (by linarith) down) long least

/-- A round that does not answer moves strictly into the bracket, at least half the tolerance away
from both ends, and the value at the new point, whatever it is, can take part in the next round. -/
theorem advanced_moved {b : Bracket Rat} {tolerance factor : Rat} {endPositive : Bool} (ordered : b.Ordered)
    (facing : b.Facing factor) (positive : 0 < tolerance) (unanswered : b.answer? tolerance endPositive = none) :
    ∃ next : Bracket Rat, b.advanced tolerance = .ok next ∧
      (Inside b.xCur b.xBlk next.xCur ∧ tolerance / 2 ≤ |next.xCur - b.xCur| ∧ tolerance / 2 ≤ |next.xCur - b.xBlk|) ∧
      (next.xPre = b.xCur ∧ next.fPre = b.fCur ∧ next.xBlk = b.xBlk ∧ next.fBlk = b.fBlk) ∧
      ∀ y, Moved { next with fCur := y } ∧ Facing factor { next with fCur := y } := by
  obtain ⟨noRoot, wide⟩ := answer?_eq_none unanswered
  obtain ⟨before, s, chosen, towards, short⟩ := strides_towards ordered noRoot positive wide
  obtain ⟨inside, left, right⟩ := target_inside positive wide towards short
  have least := b.half_le_margin tolerance
  refine ⟨{ b with xPre := b.xCur, fPre := b.fCur, sPre := before, sCur := s, xCur := b.target tolerance s },
    ?_, ⟨inside, least.trans left, least.trans right⟩, ⟨rfl, rfl, rfl, rfl⟩, fun y => ⟨?_, ?_⟩⟩
  · rw [advanced, chosen]
    rfl
  · exact Or.inr ⟨inside, ordered.opposed.resolve_left noRoot⟩
  · -- the rest of the way to the blocking end leads in the same direction as the whole
    have rest : 0 < (b.xBlk - b.xCur) * (b.xBlk - b.target tolerance s) := by
      rcases inside with ⟨low, high⟩ | ⟨low, high⟩
      · exact mul_pos (by linarith) (by linarith)
      · exact mul_pos_of_neg_of_neg (by linarith) (by linarith)
    refine mul_pos_of_mul_pos facing ?_
    calc 0 < (b.xBlk - b.xCur) * (b.xBlk - b.target tolerance s) * (b.fBlk * b.fBlk) :=
          mul_pos rest (mul_self_pos.mpr ordered.blocked)
      _ = (b.xBlk - b.xCur) * b.fBlk * ((b.xBlk - b.target tolerance s) * b.fBlk) := by ring

theorem initial_moved {a fa b fb : Rat} (apart : a ≠ b) (signs : fb * fa < 0) : (initial a fa b fb).Moved :=
  Or.inl ⟨rfl, rfl, apart.symm, signs⟩

theorem initial_facing {a fa b fb : Rat} (apart : a ≠ b) (signs : fb * fa < 0) :
    (initial a fa b fb).Facing ((a - b) * fa) :=
  mul_self_pos.mpr (mul_ne_zero (sub_ne_zero.mpr apart) (right_ne_zero_of_mul signs.ne))

end Bracket

namespace RootSearch

variable {ω : Type} {search : RootSearch Rat} {f : Rat → Effect ω Rat Rat} {a fa b fb r : Rat} {w w' : ω}

/-- What a search knows of the function: its values at the two ends, and those that it returned in
between, at least half the tolerance away from the start. -/
def Reading (search : RootSearch Rat) (f : Rat → Effect ω Rat Rat) (a fa b fb x y : Rat) : Prop :=
  x = a ∧ y = fa ∨ x = b ∧ y = fb ∨ Inside a b x ∧ search.tolerance / 2 ≤ |x - a| ∧ (f x).Returns y

private theorem Reading.place {x y : Rat} (h : search.Reading f a fa b fb x y) :
    Inside a b x ∨ x = a ∨ x = b := by
  rcases h with ⟨rfl, _⟩ | ⟨rfl, _⟩ | ⟨inside, _⟩
  · exact Or.inr (Or.inl rfl)
  · exact Or.inr (Or.inr rfl)
  · exact Or.inl inside

/-- How the rounds of a search can end: with the answer of a bracket that holds points it knows and
faces the start, without a short interval within the budget, or with a failure of the function at a
point in between. -/
theorem refine_outcome (positive : 0 < search.tolerance) {endPositive : Bool} {left : Nat} {factor : Rat}
    {bracket : Bracket Rat} (moved : bracket.Moved) (held : bracket.Holds (search.Reading f a fa b fb))
    (facing : bracket.Facing factor) {outcome : Except (Error Rat) Rat}
    (ran : (search.refine f endPositive left bracket).runFrom w = (outcome, w')) :
    (∀ r, outcome = .ok r → ∃ last : Bracket Rat, last.Ordered ∧ last.Holds (search.Reading f a fa b fb) ∧
      last.Facing factor ∧ last.answer? search.tolerance endPositive = some r) ∧
    ∀ e, outcome = .error e → (∃ x y, e = .notIsolated x y search.budget) ∨
      ∃ x v v', Inside a b x ∧ (f x).runFrom v = (.error e, v') := by
  induction left generalizing bracket w with
  | zero =>
    have ordered := Bracket.ordered_of_moved moved
    have known := Bracket.holds_ordered held
    have faces := Bracket.facing_ordered moved facing
    unfold refine at ran
    cases answer : bracket.renewed.ordered.answer? search.tolerance endPositive with
    | none =>
      simp only [answer, Effect.runFrom_throw] at ran
      cases ran
      refine ⟨fun r same => ?_, fun e same => ?_⟩
      · cases same
      · cases same
        exact Or.inl ⟨_, _, rfl⟩
    | some x =>
      simp only [answer, Effect.runFrom_pure] at ran
      cases ran
      refine ⟨fun r same => ?_, fun e same => ?_⟩
      · cases same
        exact ⟨_, ordered, known, faces, answer⟩
      · cases same
  | succ left ih =>
    have ordered := Bracket.ordered_of_moved moved
    have known := Bracket.holds_ordered held
    have faces := Bracket.facing_ordered moved facing
    unfold refine at ran
    cases answer : bracket.renewed.ordered.answer? search.tolerance endPositive with
    | none =>
      obtain ⟨next, advanced, ⟨inside, left, right⟩, ⟨xPre, fPre, xBlk, fBlk⟩, again⟩ :=
        Bracket.advanced_moved ordered faces positive answer
      have place := inside.mono known.2.1.place known.2.2.place
      simp only [answer, advanced, Effect.runFrom_bind, Effect.runFrom_lift] at ran
      cases value : (f next.xCur).runFrom w with
      | mk result v =>
        rw [value] at ran
        cases result with
        | error e =>
          cases ran
          refine ⟨fun r same => ?_, fun e same => ?_⟩
          · cases same
          · cases same
            exact Or.inr ⟨_, _, _, place, value⟩
        | ok y =>
          refine ih (again y).1 ⟨?_, ?_, ?_⟩ (again y).2 ran
          · rw [xPre, fPre]
            exact known.2.1
          · exact Or.inr (Or.inr ⟨place, inside.far left right (not_inside_left known.2.1.place known.2.2.place),
              Effect.returns_of_runFrom value⟩)
          · rw [xBlk, fBlk]
            exact known.2.2
    | some x =>
      simp only [answer, Effect.runFrom_pure] at ran
      cases ran
      refine ⟨fun r same => ?_, fun e same => ?_⟩
      · cases same
        exact ⟨_, ordered, known, faces, answer⟩
      · cases same

/-- A search from a point to itself answers at once. -/
theorem refine_point (positive : 0 < search.tolerance) {endPositive : Bool} {left : Nat} :
    (search.refine f endPositive left (.initial b fa b fb)).runFrom w = (.ok b, w) := by
  have points : (Bracket.initial b fa b fb).renewed.ordered.xCur = b ∧
      (Bracket.initial b fa b fb).renewed.ordered.xBlk = b := by
    rw [Bracket.ordered_eq, Bracket.renewed_eq]
    split <;> split <;> exact ⟨rfl, rfl⟩
  unfold refine
  generalize (Bracket.initial b fa b fb).renewed.ordered = bracket at points
  have narrow := bracket.abs_halfway
  rw [points.1, points.2, sub_self, abs_zero] at narrow
  have short : |bracket.halfway| < bracket.margin search.tolerance := by
    have delta : 0 < bracket.margin search.tolerance := Bracket.margin_pos positive
    linarith
  have answer : bracket.answer? search.tolerance endPositive = some b := by
    simp [Bracket.answer?, short, points.1, points.2]
  simp only [answer, Effect.runFrom_pure]

/-- The answer of a search from one point to another: the far end, or a point in between that is at
least half the tolerance away from the start. -/
structure Answer (search : RootSearch Rat) (f : Rat → Effect ω Rat Rat) (a fa b fb r : Rat) : Prop where
  place : r = b ∨ Inside a b r ∧ search.tolerance / 2 ≤ |r - a|
  /-- There is a root at the answer, or a change of sign in a short interval that ends there. -/
  isolated : ∃ x gx y, (x = a ∧ gx = fa ∨ Inside a r x ∧ (f x).Returns gx) ∧ 0 < gx * fa ∧
    (r = b ∧ y = fb ∨ (f r).Returns y) ∧
    (y = 0 ∨ y * fa < 0 ∧ |r - x| < search.tolerance + relativeTolerance * max |r| |x|)

private theorem answer_of_bracket {last : Bracket Rat} (signs : fb * fa < 0) (ordered : last.Ordered)
    (held : last.Holds (search.Reading f a fa b fb)) (facing : last.Facing ((a - b) * fa))
    (answer : last.answer? search.tolerance (decide (0 < fb)) = some r) : search.Answer f a fa b fb r := by
  have start : fa ≠ 0 := right_ne_zero_of_mul signs.ne
  obtain ⟨y, known, side⟩ := Bracket.answer?_eq_some ordered held facing answer
  -- the answer is not the start, since its value is not on that side
  have side' : y = 0 ∨ y * fa < 0 ∧ ∃ z fz, search.Reading f a fa b fb z fz ∧ 0 < fz * fa ∧ 0 < (a - b) * (z - r) ∧
      |r - z| < search.tolerance + relativeTolerance * max |r| |z| := by
    by_cases zero : y = 0
    · exact Or.inl zero
    obtain ⟨same, z, fz, reading, opposed, faces, near⟩ := side.resolve_left zero
    rw [decide_eq_decide] at same
    have change : 0 < y * fb := by
      rcases lt_or_gt_of_ne (left_ne_zero_of_mul signs.ne) with neg | pos
      · exact mul_pos_of_neg_of_neg (lt_of_le_of_ne (not_lt.mp fun h => neg.not_gt (same.mp h)) zero) neg
      · exact mul_pos (same.mpr pos) pos
    have opposite : y * fa < 0 := by
      have product := mul_pos_of_mul_pos (z := -fa) change (by linarith)
      linarith
    have agrees : 0 < fz * fa := by
      have product := mul_pos_of_mul_pos (x := fz) (y := -y) (z := fa) (by linarith) (by linarith)
      exact product
    refine Or.inr ⟨opposite, z, fz, reading, agrees, ?_, near⟩
    have square : 0 < fa * fz * ((a - b) * (z - r)) := by
      calc 0 < (a - b) * fa * ((z - r) * fz) := faces
        _ = fa * fz * ((a - b) * (z - r)) := by ring
    exact (pos_iff_pos_of_mul_pos square).mp (by rwa [mul_comm])
  have place : r = b ∧ y = fb ∨ Inside a b r ∧ search.tolerance / 2 ≤ |r - a| ∧ (f r).Returns y := by
    rcases known with ⟨_, rfl⟩ | far | inner
    · rcases side' with zero | ⟨opposite, _⟩
      · exact absurd zero start
      · exact absurd opposite (mul_self_nonneg y).not_gt
    · exact Or.inl far
    · exact Or.inr inner
  have returned : r = b ∧ y = fb ∨ (f r).Returns y := place.imp_right fun inner => inner.2.2
  refine ⟨place.imp (fun far => far.1) fun inner => ⟨inner.1, inner.2.1⟩, ?_⟩
  rcases side' with zero | ⟨opposite, z, fz, reading, agrees, towards, near⟩
  · exact ⟨a, fa, y, Or.inl ⟨rfl, rfl⟩, mul_self_pos.mpr start, returned, Or.inl zero⟩
  · refine ⟨z, fz, y, ?_, agrees, returned, Or.inr ⟨opposite, near⟩⟩
    rcases reading with start | ⟨_, rfl⟩ | ⟨inside, _, value⟩
    · exact Or.inl start
    · exact absurd agrees signs.not_gt
    · refine Or.inr ⟨?_, value⟩
      rcases place with ⟨rfl, _⟩ | ⟨between, _⟩
      · exact inside
      · rcases pos_and_pos_or_neg_and_neg_of_mul_pos towards with ⟨down, before⟩ | ⟨up, before⟩
        · rcases inside with ⟨low, high⟩ | ⟨low, high⟩
          · linarith
          · exact Or.inr ⟨by linarith, high⟩
        · rcases inside with ⟨low, high⟩ | ⟨low, high⟩
          · exact Or.inl ⟨low, by linarith⟩
          · linarith

theorem solve_root (start : fa ≠ 0) : search.solve f a b (some fa) (some 0) = pure b := by
  simp only [solve, pure_bind, Scalar.isZero_rat, start, decide_false, decide_true, Bool.false_eq_true, ↓reduceIte]

theorem solve_refine (start : fa ≠ 0) (far : fb ≠ 0) (signs : fb * fa < 0) :
    search.solve f a b (some fa) (some fb) =
      search.refine f (decide (0 < fb)) search.budget (.initial a fa b fb) := by
  have other : ¬ (decide (fa < 0) == decide (fb < 0)) = true := by
    rw [beq_iff_eq, decide_eq_decide]
    intro same
    rcases lt_or_gt_of_ne start with neg | pos
    · exact signs.not_gt (mul_pos_of_neg_of_neg (same.mp neg) neg)
    · have notNeg : ¬ fb < 0 := fun negB => pos.not_gt (same.mpr negB)
      exact signs.not_gt (mul_pos (lt_of_le_of_ne (not_lt.mp notNeg) far.symm) pos)
  simp only [solve, pure_bind, Scalar.isZero_rat, Scalar.isNegative_rat, Scalar.isPositive_rat, start, far, other,
    decide_false, Bool.false_eq_true, ↓reduceIte]

private theorem initial_ready (search : RootSearch Rat) (f : Rat → Effect ω Rat Rat) (apart : a ≠ b)
    (signs : fb * fa < 0) :
    (Bracket.initial a fa b fb).Moved ∧ (Bracket.initial a fa b fb).Holds (search.Reading f a fa b fb) ∧
      (Bracket.initial a fa b fb).Facing ((a - b) * fa) :=
  ⟨Bracket.initial_moved apart signs, ⟨Or.inl ⟨rfl, rfl⟩, Or.inr (Or.inl ⟨rfl, rfl⟩), Or.inl ⟨rfl, rfl⟩⟩,
    Bracket.initial_facing apart signs⟩

/-- A search that starts on a change of sign, and returns, returns an answer. -/
theorem solve_answer (positive : 0 < search.tolerance) (start : fa ≠ 0) (crossing : fb = 0 ∨ (0 < fb ↔ fa < 0))
    (ran : (search.solve f a b (some fa) (some fb)).runFrom w = (.ok r, w')) : search.Answer f a fa b fb r := by
  by_cases far : fb = 0
  · rw [far, solve_root start, Effect.runFrom_pure] at ran
    cases ran
    exact ⟨Or.inl rfl, a, fa, fb, Or.inl ⟨rfl, rfl⟩, mul_self_pos.mpr start, Or.inl ⟨rfl, rfl⟩, Or.inl far⟩
  have signs := mul_neg_of_opposite start far (crossing.resolve_left far)
  rw [solve_refine start far signs] at ran
  by_cases point : a = b
  · subst point
    rw [refine_point positive] at ran
    cases ran
    refine ⟨Or.inl rfl, a, fa, fb, Or.inl ⟨rfl, rfl⟩, mul_self_pos.mpr start, Or.inl ⟨rfl, rfl⟩, Or.inr ⟨signs, ?_⟩⟩
    rw [sub_self, abs_zero]
    have slack : 0 ≤ relativeTolerance * max |a| |a| := mul_nonneg relativeTolerance_pos.le (by positivity)
    linarith
  · obtain ⟨moved, held, facing⟩ := initial_ready search f point signs
    obtain ⟨last, ordered, known, faces, answer⟩ := (refine_outcome positive moved held facing ran).1 r rfl
    exact answer_of_bracket signs ordered known faces answer

/-- A search that starts on a change of sign, and fails, has not isolated the root within its budget,
or the function has failed at a point between the two ends. -/
theorem solve_failure (positive : 0 < search.tolerance) (start : fa ≠ 0) (crossing : fb = 0 ∨ (0 < fb ↔ fa < 0))
    {e : Error Rat} (ran : (search.solve f a b (some fa) (some fb)).runFrom w = (.error e, w')) :
    (∃ x y, e = .notIsolated x y search.budget) ∨ ∃ x v v', Inside a b x ∧ (f x).runFrom v = (.error e, v') := by
  by_cases far : fb = 0
  · rw [far, solve_root start, Effect.runFrom_pure] at ran
    cases ran
  have signs := mul_neg_of_opposite start far (crossing.resolve_left far)
  rw [solve_refine start far signs] at ran
  by_cases point : a = b
  · subst point
    rw [refine_point positive] at ran
    cases ran
  · obtain ⟨moved, held, facing⟩ := initial_ready search f point signs
    exact (refine_outcome positive moved held facing ran).2 e rfl

end RootSearch

end Trajectory
