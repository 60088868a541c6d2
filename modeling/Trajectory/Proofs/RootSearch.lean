import Mathlib.Tactic
import Trajectory.Proofs.Rounds

/-!
What a root search promises, from its call to its end.

From a change of sign a search ends in one of two ways: with an answer on the far side of the root
(`RootSearch.Isolates`), or, its budget used up, with an interval that still holds the change
(`RootSearch.Encloses`). Its rounds call the function strictly between the two ends only, once each
(`refine_calls`).
-/

namespace Trajectory

variable {ω : Type}

namespace RootSearch

variable {search : RootSearch Rat} {f : Rat → Effect ω Rat Rat} {F : Rat → Rat} {calls : ω → List Rat} {a b : Rat}

/-- The answer of a search from `a` to `b`: not the start, and either a root, or a point with the sign of the far
end that has a point with the sign of the start close by, on the side of the start. -/
structure Isolates (search : RootSearch Rat) (F : Rat → Rat) (a b r : Rat) : Prop where
  place : r = b ∨ Inside a b r
  isolated : F r = 0 ∨ 0 < F r * F b ∧ ∃ x, (x = a ∨ Inside a r x) ∧ 0 < F x * F a ∧
    |r - x| < search.tolerance + relativeTolerance * max |r| |x|

/-- What a search from `a` to `b` that has given up leaves: two points with a change of sign between them, the
first of which has the smaller value. -/
structure Encloses (F : Rat → Rat) (a b lower upper : Rat) : Prop where
  lower_between : Between a b lower
  upper_between : Between a b upper
  change : F lower * F upper < 0
  smaller : |F lower| ≤ |F upper|

/-- How a search from `a` to `b` may end: with an answer, or without one once its budget is used up. -/
def Concludes (search : RootSearch Rat) (F : Rat → Rat) (a b : Rat) : Except (Error Rat) Rat → Prop
  | .ok r => search.Isolates F a b r
  | .error e => ∃ lower upper, e = .notIsolated lower upper search.budget ∧ Encloses F a b lower upper

/-- The rounds of a search call the function once each, strictly between the two ends. If they fail, the budget is
used up and the change of sign still enclosed. -/
theorem refine_calls (search : RootSearch Rat) (computes : Computes f F calls) (positive : 0 < search.tolerance)
    (endPositive : Bool) (left : Nat) {factor : Rat} {bracket : Bracket Rat} (moved : bracket.Moved)
    (held : bracket.Holds fun x y => Between a b x ∧ y = F x) (facing : bracket.Facing factor) (w : ω) :
    ∃ outcome w' inner, (search.refine f endPositive left bracket).runFrom w = (outcome, w') ∧
      calls w' = calls w ++ inner ∧ inner.length ≤ left ∧ (∀ x ∈ inner, Inside a b x) ∧
      ∀ e, outcome = .error e → ∃ lower upper, e = .notIsolated lower upper search.budget ∧
        Encloses F a b lower upper := by
  obtain ⟨outcome, w', inner, last, ran, recorded, reaches, stops⟩ :=
    refine_reaches positive moved facing computes left (.start : search.Reaches F endPositive bracket [] _) w
  obtain ⟨⟨_, ⟨curPlace, curValue⟩, blkPlace, blkValue⟩, all⟩ := reaches.holds positive moved facing held
  refine ⟨outcome, w', inner, ran, recorded, ?_, all, ?_⟩
  · cases outcome with
    | ok r => exact stops.2
    | error e => exact stops.2.1.le
  · rintro e rfl
    obtain ⟨unanswered, _, same⟩ := stops
    have opposed :=
      (reaches.ordered positive moved facing).1.opposed.resolve_left (Bracket.answer?_eq_none unanswered).1
    have smaller := reaches.smaller
    rw [curValue, blkValue] at opposed smaller
    exact ⟨_, _, same, curPlace, blkPlace, opposed, smaller⟩

/-- In terms of values, an answer isolates the root. -/
theorem Answer.isolates (computes : Computes f F calls) (change : F a * F b < 0) {r : Rat}
    (answer : search.Answer f a (F a) b (F b) r) : search.Isolates F a b r := by
  obtain ⟨place, x, gx, y, near, start, far, close⟩ := answer
  have value : y = F r := by
    rcases far with ⟨rfl, rfl⟩ | returned
    · rfl
    · exact computes.eq_of_returns returned
  have nearValue : gx = F x := by
    rcases near with ⟨rfl, rfl⟩ | ⟨_, returned⟩
    · rfl
    · exact computes.eq_of_returns returned
  subst value nearValue
  refine ⟨place.imp_right And.left, close.imp_right fun ⟨opposite, short⟩ => ⟨?_, x, ?_, start, short⟩⟩
  · have product : 0 < F r * -F a := by linarith
    exact mul_pos_of_mul_pos product (by linarith)
  · exact near.imp And.left And.left

/-- From a change of sign between its two ends, a search ends with an answer that isolates a root on the side of the
far end, or with an interval that encloses the change. It calls the function at the ends whose values it was not
given, and besides at most as often as its budget allows, strictly between the two. -/
theorem solve_contract (computes : Computes f F calls) (positive : 0 < search.tolerance) (apart : a ≠ b)
    (change : F a * F b < 0) {fa fb : Option Rat} (givenA : ∀ y ∈ fa, y = F a) (givenB : ∀ y ∈ fb, y = F b) (w : ω) :
    ∃ outcome w' inner, (search.solve f a b fa fb).runFrom w = (outcome, w') ∧
      calls w' = calls w ++ (unread a fa ++ unread b fb) ++ inner ∧ inner.length ≤ search.budget ∧
      (∀ x ∈ inner, Inside a b x) ∧ search.Concludes F a b outcome := by
  have start : F a ≠ 0 := left_ne_zero_of_mul change.ne
  have far : F b ≠ 0 := right_ne_zero_of_mul change.ne
  have signs : F b * F a < 0 := by rwa [mul_comm]
  obtain ⟨v, noted, opened⟩ := search.solve_opening computes givenA givenB w
  obtain ⟨outcome, w', inner, ran, recorded, few, all, failing⟩ :=
    search.refine_calls computes positive (decide (0 < F b)) search.budget (Bracket.initial_moved apart signs)
      (Bracket.initial_holds F a b) (Bracket.initial_facing apart signs) v
  rw [← solve_refine start far signs] at ran
  refine ⟨outcome, w', inner, opened.trans ran, by rw [recorded, noted], few, all, ?_⟩
  cases outcome with
  | error e => exact failing e rfl
  | ok r =>
    have crossing : F b = 0 ∨ (0 < F b ↔ F a < 0) := Or.inr (opposite_of_mul_neg change)
    exact (solve_answer positive start crossing ran).isolates computes change

/-- A search for the cube root of two from above, with the value at the far end given. -/
theorem solve_contract_excess :
    Computes (noting excess) excess id ∧ (0 : Rat) < 1 / 1000 ∧ (2 : Rat) ≠ 0 ∧ excess 2 * excess 0 < 0 ∧
    (∀ y ∈ (none : Option Rat), y = excess 2) ∧ (∀ y ∈ some (-2 : Rat), y = excess 0) ∧
    ∃ outcome w' inner, ((⟨1 / 1000, 20⟩ : RootSearch Rat).solve (noting excess) 2 0 none (some (-2))).runFrom [] =
        (outcome, w') ∧
      w' = [2] ++ inner ∧ inner.length ≤ 20 ∧ (∀ x ∈ inner, Inside 2 0 x) ∧
      (⟨1 / 1000, 20⟩ : RootSearch Rat).Concludes excess 2 0 outcome := by
  have positive : (0 : Rat) < 1 / 1000 := by norm_num
  have apart : (2 : Rat) ≠ 0 := by norm_num
  have change : excess 2 * excess 0 < 0 := by norm_num [excess]
  have givenA : ∀ y ∈ (none : Option Rat), y = excess 2 := by simp
  have givenB : ∀ y ∈ some (-2 : Rat), y = excess 0 := by norm_num [excess]
  exact ⟨computes_noting excess, positive, apart, change, givenA, givenB,
    solve_contract (computes_noting excess) positive apart change givenA givenB []⟩

/-- With a budget of one call the change of sign stays enclosed. -/
example : ((⟨1 / 1000, 1⟩ : RootSearch Rat).solve (noting excess) 2 0 none (some (-2))).runFrom [] =
    (.error (.notIsolated (1 / 2) 2 1), [2, 1 / 2]) := by decide +kernel

end RootSearch

end Trajectory
