import Mathlib.Tactic
import Trajectory.Proofs.Exact
import Trajectory.Scalar.Double

/-!
What the comparisons of the scalars have in common.

Comparisons are tests, and undefined scalars fail all of them; but what is less than something is equal
to itself, and not to anything greater (`Scalar.Strict`). Of two scalars that are equal to themselves one is
less than the other, or they are equal, and equal scalars compare alike (`Scalar.Comparing`). This holds for
rationals, where equal scalars are the same, and for floating-point numbers, where the two zeros are equal and
not-a-number is not.
-/

namespace Trajectory

/-- Scalars in which the two sides of a strict comparison are numbers, to both of which no scalar is equal. -/
class Scalar.Strict (α : Type) [Scalar α] : Prop where
  self_of_lt : ∀ {a b : α}, a < b → (a == a) = true ∧ (b == b) = true
  apart_of_lt : ∀ {a b t : α}, a < b → (t == a) = true → (t == b) = false

instance : Scalar.Strict Rat where
  self_of_lt _ := ⟨beq_self_eq_true _, beq_self_eq_true _⟩
  apart_of_lt less same := beq_eq_false_iff_ne.mpr (beq_iff_eq.mp same ▸ ne_of_lt less)

/-- Scalars that compare as numbers do, but for those that are not equal to themselves and fail every comparison. -/
class Scalar.Comparing (α : Type) [Scalar α] : Prop extends Scalar.Strict α where
  lt_asymm : ∀ {a b : α}, a < b → ¬ b < a
  self_of_isFinite : ∀ {a : α}, Scalar.isFinite a = true → (a == a) = true
  self_of_beq : ∀ {a b : α}, (a == b) = true → (a == a) = true
  beq_symm : ∀ {a b : α}, (a == b) = true → (b == a) = true
  le_iff : ∀ {a b : α}, a ≤ b ↔ (a == a) = true ∧ (b == b) = true ∧ ¬ b < a
  beq_of_not_lt : ∀ {a b : α}, (a == a) = true → (b == b) = true → ¬ a < b → ¬ b < a → (a == b) = true
  lt_congr_left : ∀ {a b c : α}, (a == b) = true → (a < c ↔ b < c)
  lt_congr_right : ∀ {a b c : α}, (a == b) = true → (c < a ↔ c < b)

instance : Scalar.Comparing Rat where
  lt_asymm := lt_asymm
  self_of_isFinite _ := beq_self_eq_true _
  self_of_beq _ := beq_self_eq_true _
  beq_symm same := beq_iff_eq.mpr (beq_iff_eq.mp same).symm
  le_iff :=
    ⟨fun least => ⟨beq_self_eq_true _, beq_self_eq_true _, not_lt.mpr least⟩, fun ⟨_, _, least⟩ => not_lt.mp least⟩
  beq_of_not_lt _ _ least most := beq_iff_eq.mpr (le_antisymm (not_lt.mp most) (not_lt.mp least))
  lt_congr_left same := by rw [beq_iff_eq.mp same]
  lt_congr_right same := by rw [beq_iff_eq.mp same]

namespace Double

open Float.Model

variable {a b t : UnpackedFloat}

/-- What can be compared is a number. -/
theorem number_of_compare {o : Ordering} (compared : a.compare b = some o) :
    a ≠ .notANumber ∧ b ≠ .notANumber := by
  constructor
  · rintro rfl
    cases compared
  · rintro rfl
    rcases a with (_ | _) | _ | _ | ⟨_ | _, m, e, p⟩ <;> cases compared

theorem compare_self (number : a ≠ .notANumber) : a.compare a = some .eq := by
  rcases a with (_ | _) | _ | _ | ⟨_ | _, m, e, p⟩
  · rfl
  · rfl
  · exact absurd rfl number
  · rfl
  · change some ((compare e e).then (compare m m)).swap = some .eq
    rw [compare_eq_iff_eq.mpr rfl, compare_eq_iff_eq.mpr rfl]
    rfl
  · change some ((compare e e).then (compare m m)) = some .eq
    rw [compare_eq_iff_eq.mpr rfl, compare_eq_iff_eq.mpr rfl]
    rfl

/-- Equal numbers have the same parts, but for the two zeros. -/
theorem same_or_zeros (same : t.compare a = some .eq) : t = a ∨ ∃ s s', t = .zero s ∧ a = .zero s' := by
  rcases t with s | _ | s | ⟨s, m, e, p⟩ <;> rcases a with s' | _ | s' | ⟨s', m', e', p'⟩
  case infinity.infinity => cases s <;> cases s' <;> first | exact Or.inl rfl | cases same
  case zero.zero => exact Or.inr ⟨s, s', rfl, rfl⟩
  case finite.finite =>
    cases s <;> cases s'
    · change some ((compare e e').then (compare m m')).swap = some .eq at same
      simp only [Option.some.injEq, Ordering.swap_eq_eq, Ordering.then_eq_eq, compare_eq_iff_eq] at same
      obtain ⟨rfl, rfl⟩ := same
      exact Or.inl rfl
    · cases same
    · cases same
    · change some ((compare e e').then (compare m m')) = some .eq at same
      simp only [Option.some.injEq, Ordering.then_eq_eq, compare_eq_iff_eq] at same
      obtain ⟨rfl, rfl⟩ := same
      exact Or.inl rfl
  all_goals first | cases same | (cases s <;> cases same) | (cases s' <;> cases same)

/-- Equal numbers compare in the same way with every other one. -/
theorem compare_of_eq (same : t.compare a = some .eq) (b : UnpackedFloat) : t.compare b = a.compare b := by
  rcases same_or_zeros same with rfl | ⟨s, s', rfl, rfl⟩
  · rfl
  · rcases b with (_ | _) | _ | _ | ⟨_ | _, _, _, _⟩ <;> rfl

/-- Comparing two numbers the other way around turns the answer around. -/
theorem compare_swap (a b : UnpackedFloat) : a.compare b = (b.compare a).map Ordering.swap := by
  rcases a with (_ | _) | _ | _ | ⟨_ | _, m, e, p⟩ <;> rcases b with (_ | _) | _ | _ | ⟨_ | _, m', e', p'⟩
  case finite.negative.finite.negative =>
    change some ((compare e e').then (compare m m')).swap = some ((compare e' e).then (compare m' m)).swap.swap
    rw [Ordering.swap_then, ← Std.OrientedCmp.eq_swap, ← Std.OrientedCmp.eq_swap, Ordering.swap_swap]
  case finite.positive.finite.positive =>
    change some ((compare e e').then (compare m m')) = some ((compare e' e).then (compare m' m)).swap
    rw [Ordering.swap_then, ← Std.OrientedCmp.eq_swap, ← Std.OrientedCmp.eq_swap]
  all_goals rfl

/-- Numbers can be compared. -/
theorem compare_of_numbers (first : a ≠ .notANumber) (second : b ≠ .notANumber) : ∃ o, a.compare b = some o := by
  rcases a with (_ | _) | _ | _ | ⟨_ | _, m, e, p⟩ <;> rcases b with (_ | _) | _ | _ | ⟨_ | _, m', e', p'⟩
  all_goals first | exact ⟨_, rfl⟩ | exact absurd rfl first | exact absurd rfl second

variable {x y : Float}

theorem lt_iff_compare : x < y ↔ x.toModel.unpack.compare y.toModel.unpack = some .lt := by
  change Float.lt x y = true ↔ _
  rw [Float.lt, decide_eq_true_iff]
  exact beq_iff_eq (a := x.toModel.unpack.compare y.toModel.unpack)

theorem le_iff_compare : x ≤ y ↔ (x.toModel.unpack.compare y.toModel.unpack).any (·.isLE) = true := by
  change Float.le x y = true ↔ _
  rw [Float.le, decide_eq_true_iff]
  rfl

theorem beq_iff_compare : (x == y) = true ↔ x.toModel.unpack.compare y.toModel.unpack = some .eq :=
  beq_iff_eq (a := x.toModel.unpack.compare y.toModel.unpack)

/-- A scalar that is equal to itself is a number. -/
theorem self_iff_number : (x == x) = true ↔ x.toModel.unpack ≠ .notANumber :=
  ⟨fun same => (number_of_compare (beq_iff_compare.mp same)).1, fun number => beq_iff_compare.mpr (compare_self number)⟩

end Double

open Double in
instance : Scalar.Strict Float where
  self_of_lt less := by
    obtain ⟨first, second⟩ := number_of_compare (lt_iff_compare.mp less)
    exact ⟨beq_iff_compare.mpr (compare_self first), beq_iff_compare.mpr (compare_self second)⟩
  apart_of_lt {_ y _} less same := by
    refine Bool.eq_false_iff.mpr fun other => ?_
    have compared := compare_of_eq (beq_iff_compare.mp same) y.toModel.unpack
    rw [beq_iff_compare.mp other, lt_iff_compare.mp less] at compared
    cases compared

open Double in
instance : Scalar.Comparing Float where
  lt_asymm less more := by
    rw [lt_iff_compare, compare_swap, lt_iff_compare.mp less] at more
    cases more
  self_of_isFinite {x} finite := by
    refine self_iff_number.mpr fun undefined => ?_
    change x.toModel.unpack.isFinite = true at finite
    rw [undefined] at finite
    cases finite
  self_of_beq same := self_iff_number.mpr (number_of_compare (beq_iff_compare.mp same)).1
  beq_symm same := by
    rw [beq_iff_compare, compare_swap, beq_iff_compare.mp same]
    rfl
  le_iff {x y} := by
    rw [le_iff_compare, lt_iff_compare, compare_swap, self_iff_number, self_iff_number]
    rcases compared : y.toModel.unpack.compare x.toModel.unpack with _ | _ | _ | _
    · refine iff_of_false (by simp) fun ⟨first, second, _⟩ => ?_
      obtain ⟨o, answer⟩ := compare_of_numbers second first
      rw [answer] at compared
      cases compared
    · exact iff_of_false (by decide) fun ⟨_, _, least⟩ => least rfl
    · exact iff_of_true (by decide) ⟨(number_of_compare compared).2, (number_of_compare compared).1, by decide⟩
    · exact iff_of_true (by decide) ⟨(number_of_compare compared).2, (number_of_compare compared).1, by decide⟩
  beq_of_not_lt first second least most := by
    obtain ⟨o, compared⟩ := compare_of_numbers (self_iff_number.mp first) (self_iff_number.mp second)
    rw [lt_iff_compare, compared] at least
    rw [lt_iff_compare, compare_swap, compared] at most
    rw [beq_iff_compare, compared]
    cases o with
    | lt => exact absurd rfl least
    | eq => rfl
    | gt => exact absurd rfl most
  lt_congr_left {_ _ c} same := by
    rw [lt_iff_compare, lt_iff_compare, compare_of_eq (beq_iff_compare.mp same)]
  lt_congr_right {_ _ c} same := by
    rw [lt_iff_compare, lt_iff_compare, compare_swap c.toModel.unpack, compare_of_eq (beq_iff_compare.mp same),
      ← compare_swap]

end Trajectory
