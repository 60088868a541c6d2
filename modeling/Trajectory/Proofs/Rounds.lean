import Mathlib.Tactic
import Trajectory.Proofs.Bracket

/-!
The rounds of a root search.

The function that is searched belongs to the caller. Its values depend on the point alone; besides it may
change the caller's state, in which a record of its calls is kept (`RootSearch.Computes`). Before its rounds a
search calls it at those ends whose values it was not given (`solve_opening`).

`RootSearch.Reaches` follows a search from one round to the next: the points at which it calls the function, and
the bracket that it holds once the roles of its points are restored. Whatever the values of the function are, every
bracket that is reached is `Bracket.Ordered` and holds points between the two ends of the search with the values
there (`Reaches.ordered`, `Reaches.holds`), and a round that does not answer goes on (`Bracket.Advances`): no
quotient of its move has a zero denominator, the next point lies strictly inside the bracket, and the bracket of the
round after it lies within this one and is shorter. `refine_reaches` is the other half, that a search does nothing
but these rounds. `solve_rounds` puts the two together.
-/

namespace Trajectory

variable {ω : Type}

/-- A point lies between two others or is one of them. -/
def Between (a b x : Rat) : Prop := Inside a b x ∨ x = a ∨ x = b

/-- A point strictly between two others splits the way from one to the other. -/
theorem Inside.abs_add {a b x : Rat} (inside : Inside a b x) : |x - a| + |x - b| = |b - a| := by
  rcases inside with ⟨low, high⟩ | ⟨low, high⟩
  · rw [abs_of_pos (sub_pos.mpr low), abs_of_neg (sub_neg.mpr high), abs_of_pos (sub_pos.mpr (low.trans high))]
    ring
  · rw [abs_of_neg (sub_neg.mpr high), abs_of_pos (sub_pos.mpr low), abs_of_neg (sub_neg.mpr (low.trans high))]
    ring

namespace Bracket

theorem ordered_smaller (b : Bracket Rat) : |b.ordered.fCur| ≤ |b.ordered.fBlk| := by
  rw [ordered_eq]
  split
  · rename_i swapped
    exact swapped.le
  · rename_i kept
    exact not_lt.mp kept

/-- A search begins with points between its ends, and with the values of the function there. -/
theorem initial_holds (F : Rat → Rat) (a b : Rat) :
    (initial a (F a) b (F b)).Holds fun x y => Between a b x ∧ y = F x :=
  ⟨⟨Or.inr (Or.inl rfl), rfl⟩, ⟨Or.inr (Or.inr rfl), rfl⟩, ⟨Or.inr (Or.inl rfl), rfl⟩⟩

/-- The interval of one bracket lies within that of another, and is shorter by at least half the tolerance. -/
structure Within (tolerance : Rat) (inner outer : Bracket Rat) : Prop where
  current : Between outer.xCur outer.xBlk inner.xCur
  blocking : Between outer.xCur outer.xBlk inner.xBlk
  shorter : |inner.xBlk - inner.xCur| + tolerance / 2 ≤ |outer.xBlk - outer.xCur|

/-- The bracket of the round after a move, once the value at the new point is known. -/
def following (moved : Bracket Rat) (value : Rat) : Bracket Rat :=
  ({ moved with fCur := value } : Bracket Rat).renewed.ordered

/-- A round that goes on with a move. -/
structure Advances (tolerance : Rat) (F : Rat → Rat) (b moved : Bracket Rat) : Prop where
  chosen : b.advanced tolerance = .ok moved
  /-- Where a move is interpolated, none of the quotients has a zero denominator. -/
  divides : |b.fCur| < |b.fPre| → ∃ s, b.interpolated = .ok s
  /-- The next point lies strictly between the current iterate and the blocking end. -/
  inside : Inside b.xCur b.xBlk moved.xCur
  /-- The next round works on a part of the interval. -/
  nested : (moved.following (F moved.xCur)).Within tolerance b

/-- Once the roles are restored, one end of the interval is the last point, and the other one the blocking end or the
previous iterate. -/
theorem ends_ordered (b : Bracket Rat) : ∃ other, (other = b.xBlk ∨ other = b.xPre) ∧
    (b.renewed.ordered.xCur = b.xCur ∧ b.renewed.ordered.xBlk = other ∨
      b.renewed.ordered.xCur = other ∧ b.renewed.ordered.xBlk = b.xCur) := by
  rw [ordered_eq, renewed_eq]
  split <;> split
  · exact ⟨b.xPre, Or.inr rfl, Or.inr ⟨rfl, rfl⟩⟩
  · exact ⟨b.xPre, Or.inr rfl, Or.inl ⟨rfl, rfl⟩⟩
  · exact ⟨b.xBlk, Or.inl rfl, Or.inr ⟨rfl, rfl⟩⟩
  · exact ⟨b.xBlk, Or.inl rfl, Or.inl ⟨rfl, rfl⟩⟩

/-- A bracket whose last point lies inside another one, not too close to its ends, and whose other points are these
ends. -/
theorem within_ordered {b moved : Bracket Rat} {tolerance : Rat} (inside : Inside b.xCur b.xBlk moved.xCur)
    (left : tolerance / 2 ≤ |moved.xCur - b.xCur|) (right : tolerance / 2 ≤ |moved.xCur - b.xBlk|)
    (pre : moved.xPre = b.xCur) (blk : moved.xBlk = b.xBlk) : moved.renewed.ordered.Within tolerance b := by
  have whole := inside.abs_add
  obtain ⟨other, which, ends⟩ := moved.ends_ordered
  have place : Between b.xCur b.xBlk other ∧ |other - moved.xCur| + tolerance / 2 ≤ |b.xBlk - b.xCur| := by
    rcases which with rfl | rfl
    · rw [blk, abs_sub_comm]
      exact ⟨Or.inr (Or.inr rfl), by linarith⟩
    · rw [pre, abs_sub_comm]
      exact ⟨Or.inr (Or.inl rfl), by linarith⟩
  rcases ends with ⟨cur, blk⟩ | ⟨cur, blk⟩
  · refine ⟨?_, ?_, ?_⟩
    · rw [cur]
      exact Or.inl inside
    · rw [blk]
      exact place.1
    · rw [cur, blk]
      exact place.2
  · refine ⟨?_, ?_, ?_⟩
    · rw [cur]
      exact place.1
    · rw [blk]
      exact Or.inl inside
    · rw [cur, blk, abs_sub_comm]
      exact place.2

/-- A round that does not answer goes on, and what holds of its bracket holds of the next one. -/
theorem advances_of_ordered {b : Bracket Rat} {tolerance factor : Rat} {endPositive : Bool} (F : Rat → Rat)
    (ordered : b.Ordered) (facing : b.Facing factor) (positive : 0 < tolerance)
    (unanswered : b.answer? tolerance endPositive = none) :
    ∃ moved, b.Advances tolerance F moved ∧ (moved.following (F moved.xCur)).Ordered ∧
      (moved.following (F moved.xCur)).Facing factor ∧
      ∀ known : Rat → Rat → Prop, b.Holds known → known moved.xCur (F moved.xCur) →
        (moved.following (F moved.xCur)).Holds known := by
  obtain ⟨moved, chosen, ⟨inside, left, right⟩, ⟨xPre, fPre, xBlk, fBlk⟩, again⟩ :=
    advanced_moved ordered facing positive unanswered
  obtain ⟨next, faces⟩ := again (F moved.xCur)
  have divides : |b.fCur| < |b.fPre| → ∃ s, b.interpolated = .ok s := by
    intro shrunk
    obtain ⟨s, found, _⟩ := interpolated_towards ordered (answer?_eq_none unanswered).1 shrunk
    exact ⟨s, found⟩
  refine ⟨moved, ⟨chosen, divides, inside, within_ordered inside left right xPre xBlk⟩, ordered_of_moved next,
    facing_ordered next faces, ?_⟩
  rintro known ⟨_, cur, blk⟩ value
  refine holds_ordered ⟨?_, value, ?_⟩
  · rw [xPre, fPre]
    exact cur
  · rw [xBlk, fBlk]
    exact blk

end Bracket

namespace RootSearch

variable {search : RootSearch Rat} {f : Rat → Effect ω Rat Rat} {F : Rat → Rat} {calls : ω → List Rat} {a b : Rat}

/-- A function of the caller computes the values of another one, and the caller's state holds the points at which
it was called, in order. -/
structure Computes (f : Rat → Effect ω Rat Rat) (F : Rat → Rat) (calls : ω → List Rat) : Prop where
  answers : ∀ x w, ((f x).runFrom w).1 = .ok (F x)
  records : ∀ x w, calls ((f x).runFrom w).2 = calls w ++ [x]

/-- The end at which a search has to call the function itself, if its value there is not given. -/
def unread (x : Rat) (given : Option Rat) : List Rat := if given.isNone then [x] else []

theorem Computes.call (computes : Computes f F calls) (x : Rat) (w : ω) :
    ∃ w', (f x).runFrom w = (.ok (F x), w') ∧ calls w' = calls w ++ [x] :=
  ⟨_, Prod.ext (computes.answers x w) rfl, computes.records x w⟩

/-- A function that notes its argument before it answers. -/
def noting (F : Rat → Rat) (x : Rat) : Effect (List Rat) Rat Rat := do
  modify (· ++ [x])
  return F x

theorem computes_noting (F : Rat → Rat) : Computes (noting F) F id := ⟨fun _ _ => rfl, fun _ _ => rfl⟩

theorem Computes.eq_of_returns (computes : Computes f F calls) {x y : Rat} (returned : (f x).Returns y) : y = F x := by
  obtain ⟨w, w', ran⟩ := returned
  have answer := computes.answers x w
  rw [ran] at answer
  cases answer
  rfl

section

variable {endPositive : Bool} {left : Nat} {bracket : Bracket Rat}

theorem refine_answer {x : Rat} (answer : bracket.renewed.ordered.answer? search.tolerance endPositive = some x) :
    search.refine f endPositive left bracket = pure x := by
  unfold refine
  simp only [answer]

theorem refine_zero (answer : bracket.renewed.ordered.answer? search.tolerance endPositive = none) :
    search.refine f endPositive 0 bracket =
      throw (.notIsolated bracket.renewed.ordered.xCur bracket.renewed.ordered.xBlk search.budget) := by
  unfold refine
  simp only [answer]

theorem refine_succ {next : Bracket Rat}
    (answer : bracket.renewed.ordered.answer? search.tolerance endPositive = none)
    (advanced : bracket.renewed.ordered.advanced search.tolerance = .ok next) :
    search.refine f endPositive (left + 1) bracket = (do
      let y ← f next.xCur
      search.refine f endPositive left { next with fCur := y }) := by
  conv_lhs => unfold refine
  simp only [answer, advanced]
  rfl

end

/-- Before its rounds a search calls the function at the ends whose values it was not given. -/
theorem solve_opening (search : RootSearch Rat) (computes : Computes f F calls) {fa fb : Option Rat}
    (givenA : ∀ y ∈ fa, y = F a) (givenB : ∀ y ∈ fb, y = F b) (w : ω) :
    ∃ v, calls v = calls w ++ (unread a fa ++ unread b fb) ∧
      (search.solve f a b fa fb).runFrom w = (search.solve f a b (some (F a)) (some (F b))).runFrom v := by
  obtain ⟨wa, calledA, notedA⟩ := computes.call a w
  obtain ⟨wb, calledB, notedB⟩ := computes.call b w
  obtain ⟨wab, calledAB, notedAB⟩ := computes.call b wa
  cases fa with
  | none =>
    cases fb with
    | none =>
      refine ⟨wab, by rw [notedAB, notedA, List.append_assoc]; rfl, ?_⟩
      simp only [solve, Effect.runFrom_bind, calledA, calledAB, pure_bind]
    | some y =>
      cases givenB y rfl
      refine ⟨wa, notedA, ?_⟩
      simp only [solve, Effect.runFrom_bind, calledA, pure_bind]
  | some x =>
    cases givenA x rfl
    cases fb with
    | none =>
      refine ⟨wb, notedB, ?_⟩
      simp only [solve, Effect.runFrom_bind, calledB, pure_bind]
    | some y =>
      cases givenB y rfl
      exact ⟨w, (List.append_nil _).symm, rfl⟩

/-- The rounds of a search that begins with a bracket: the points at which it has called the function, and the
bracket that it holds then. -/
inductive Reaches (search : RootSearch Rat) (F : Rat → Rat) (endPositive : Bool) (first : Bracket Rat) :
    List Rat → Bracket Rat → Prop
  | start : Reaches search F endPositive first [] first.renewed.ordered
  | round {points : List Rat} {b moved : Bracket Rat} (reaches : Reaches search F endPositive first points b)
      (unanswered : b.answer? search.tolerance endPositive = none) (chosen : b.advanced search.tolerance = .ok moved) :
      Reaches search F endPositive first (points ++ [moved.xCur]) (moved.following (F moved.xCur))

/-- How a search with so many calls left ends after those that it makes: with the answer of its last bracket, or
without one, once no call is left. -/
def Stops (search : RootSearch Rat) (endPositive : Bool) (left made : Nat) (last : Bracket Rat) :
    Except (Error Rat) Rat → Prop
  | .ok r => last.answer? search.tolerance endPositive = some r ∧ made ≤ left
  | .error e => last.answer? search.tolerance endPositive = none ∧ made = left ∧
      e = .notIsolated last.xCur last.xBlk search.budget

section

variable {endPositive : Bool} {first last : Bracket Rat} {points : List Rat} {factor : Rat}

/-- The end with the smaller value is the current iterate of every bracket that is reached. -/
theorem Reaches.smaller (reaches : search.Reaches F endPositive first points last) : |last.fCur| ≤ |last.fBlk| := by
  cases reaches with
  | start => exact Bracket.ordered_smaller _
  | round => exact Bracket.ordered_smaller _

variable (positive : 0 < search.tolerance) (moved : first.Moved) (facing : first.Facing factor)

include positive moved facing

/-- Every bracket that is reached is ordered, and faces the start of the search. -/
theorem Reaches.ordered (reaches : search.Reaches F endPositive first points last) :
    last.Ordered ∧ last.Facing factor := by
  induction reaches with
  | start => exact ⟨Bracket.ordered_of_moved moved, Bracket.facing_ordered moved facing⟩
  | round reaches unanswered chosen ih =>
    obtain ⟨next, advances, ordered, faces, _⟩ := Bracket.advances_of_ordered F ih.1 ih.2 positive unanswered
    cases advances.chosen.symm.trans chosen
    exact ⟨ordered, faces⟩

/-- The function is called strictly between the two ends only, and every bracket that is reached holds points between
them, with the values there, if the first one does. -/
theorem Reaches.holds (held : first.Holds fun x y => Between a b x ∧ y = F x)
    (reaches : search.Reaches F endPositive first points last) :
    (last.Holds fun x y => Between a b x ∧ y = F x) ∧ ∀ x ∈ points, Inside a b x := by
  induction reaches with
  | start => exact ⟨Bracket.holds_ordered held, fun _ mem => absurd mem List.not_mem_nil⟩
  | round reaches unanswered chosen ih =>
    obtain ⟨known, all⟩ := ih
    obtain ⟨ordered, faces⟩ := reaches.ordered positive moved facing
    obtain ⟨next, advances, _, _, holds⟩ := Bracket.advances_of_ordered F ordered faces positive unanswered
    cases advances.chosen.symm.trans chosen
    have place := advances.inside.mono known.2.1.1 known.2.2.1
    refine ⟨holds _ known ⟨Or.inl place, rfl⟩, fun x mem => ?_⟩
    rcases List.mem_append.mp mem with earlier | latest
    · exact all x earlier
    · rw [List.mem_singleton.mp latest]
      exact place

/-- From a bracket that it has reached, a search makes the rounds that follow and nothing else. -/
theorem refine_reaches (computes : Computes f F calls) (left : Nat) {bracket : Bracket Rat}
    (reaches : search.Reaches F endPositive first points bracket.renewed.ordered) (w : ω) :
    ∃ outcome w' more last, (search.refine f endPositive left bracket).runFrom w = (outcome, w') ∧
      calls w' = calls w ++ more ∧ search.Reaches F endPositive first (points ++ more) last ∧
      search.Stops endPositive left more.length last outcome := by
  induction left generalizing bracket points w with
  | zero =>
    cases answer : bracket.renewed.ordered.answer? search.tolerance endPositive with
    | some x =>
      exact ⟨.ok x, w, [], _, by rw [refine_answer answer, Effect.runFrom_pure], by simp, by simpa using reaches,
        answer, le_rfl⟩
    | none =>
      exact ⟨.error _, w, [], _, by rw [refine_zero answer, Effect.runFrom_throw], by simp, by simpa using reaches,
        answer, rfl, rfl⟩
  | succ left ih =>
    cases answer : bracket.renewed.ordered.answer? search.tolerance endPositive with
    | some x =>
      exact ⟨.ok x, w, [], _, by rw [refine_answer answer, Effect.runFrom_pure], by simp, by simpa using reaches,
        answer, Nat.zero_le _⟩
    | none =>
      obtain ⟨ordered, faces⟩ := reaches.ordered positive moved facing
      obtain ⟨next, advances, _⟩ := Bracket.advances_of_ordered F ordered faces positive answer
      obtain ⟨v, called, noted⟩ := computes.call next.xCur w
      obtain ⟨outcome, w', more, last, ran, recorded, further, stops⟩ := ih (reaches.round answer advances.chosen) v
      refine ⟨outcome, w', next.xCur :: more, last, ?_, ?_, ?_, ?_⟩
      · rw [refine_succ answer advances.chosen, Effect.runFrom_bind, called]
        exact ran
      · rw [recorded, noted, List.append_assoc, List.singleton_append]
      · rwa [List.append_assoc, List.singleton_append] at further
      · cases outcome with
        | ok r => exact ⟨stops.1, Nat.succ_le_succ stops.2⟩
        | error e => exact ⟨stops.1, congrArg Nat.succ stops.2.1, stops.2.2⟩

end

/-- From a change of sign between its two ends, a search makes its rounds and nothing else: it calls the function at
their points, after the ends whose values it was not given, and ends with the answer of the last bracket or once the
budget is used up. Whatever the function is, all of these points lie strictly between the two ends, and every bracket
that is reached is ordered and holds points between them. A round that does not answer goes on strictly inside its
bracket, to one that lies within it and is shorter. -/
theorem solve_rounds (computes : Computes f F calls) (positive : 0 < search.tolerance) (apart : a ≠ b)
    (change : F a * F b < 0) {fa fb : Option Rat} (givenA : ∀ y ∈ fa, y = F a) (givenB : ∀ y ∈ fb, y = F b) (w : ω) :
    (∃ outcome w' points last, (search.solve f a b fa fb).runFrom w = (outcome, w') ∧
      calls w' = calls w ++ (unread a fa ++ unread b fb) ++ points ∧
      search.Reaches F (decide (0 < F b)) (.initial a (F a) b (F b)) points last ∧
      search.Stops (decide (0 < F b)) search.budget points.length last outcome) ∧
    ∀ points last, search.Reaches F (decide (0 < F b)) (.initial a (F a) b (F b)) points last →
      last.Ordered ∧ (last.Holds fun x y => Between a b x ∧ y = F x) ∧ (∀ x ∈ points, Inside a b x) ∧
      (last.answer? search.tolerance (decide (0 < F b)) = none → ∃ moved, last.Advances search.tolerance F moved ∧
        search.Reaches F (decide (0 < F b)) (.initial a (F a) b (F b)) (points ++ [moved.xCur])
          (moved.following (F moved.xCur))) := by
  have start : F a ≠ 0 := left_ne_zero_of_mul change.ne
  have far : F b ≠ 0 := right_ne_zero_of_mul change.ne
  have signs : F b * F a < 0 := by rwa [mul_comm]
  have moved := Bracket.initial_moved apart signs
  have facing := Bracket.initial_facing apart signs
  obtain ⟨v, noted, opened⟩ := search.solve_opening computes givenA givenB w
  constructor
  · obtain ⟨outcome, w', points, last, ran, recorded, reaches, stops⟩ :=
      refine_reaches positive moved facing computes search.budget (.start : search.Reaches F (decide (0 < F b)) _ _ _) v
    rw [← solve_refine start far signs] at ran
    exact ⟨outcome, w', points, last, opened.trans ran, by rw [recorded, noted], reaches, stops⟩
  · intro points last reaches
    obtain ⟨ordered, faces⟩ := reaches.ordered positive moved facing
    obtain ⟨held, all⟩ := reaches.holds positive moved facing (Bracket.initial_holds F a b)
    refine ⟨ordered, held, all, fun unanswered => ?_⟩
    obtain ⟨next, advances, _⟩ := Bracket.advances_of_ordered F ordered faces positive unanswered
    exact ⟨next, advances, reaches.round unanswered advances.chosen⟩

/-- The excess of a cube over two. -/
def excess (x : Rat) : Rat := x * x * x - 2

/-- The rounds of a search for the cube root of two from above, with the value at the far end given. -/
theorem solve_rounds_excess :
    Computes (noting excess) excess id ∧ (0 : Rat) < 1 / 1000 ∧ (2 : Rat) ≠ 0 ∧ excess 2 * excess 0 < 0 ∧
    (∀ y ∈ (none : Option Rat), y = excess 2) ∧ (∀ y ∈ some (-2 : Rat), y = excess 0) ∧
    (∃ outcome w' points last, ((⟨1 / 1000, 20⟩ : RootSearch Rat).solve (noting excess) 2 0 none (some (-2))).runFrom [] =
        (outcome, w') ∧
      w' = [2] ++ points ∧
      (⟨1 / 1000, 20⟩ : RootSearch Rat).Reaches excess (decide (0 < excess 0)) (.initial 2 (excess 2) 0 (excess 0))
        points last ∧
      (⟨1 / 1000, 20⟩ : RootSearch Rat).Stops (decide (0 < excess 0)) 20 points.length last outcome) ∧
    ∀ points last, (⟨1 / 1000, 20⟩ : RootSearch Rat).Reaches excess (decide (0 < excess 0))
        (.initial 2 (excess 2) 0 (excess 0)) points last →
      last.Ordered ∧ (last.Holds fun x y => Between 2 0 x ∧ y = excess x) ∧ (∀ x ∈ points, Inside 2 0 x) ∧
      (last.answer? (1 / 1000) (decide (0 < excess 0)) = none → ∃ moved, last.Advances (1 / 1000) excess moved ∧
        (⟨1 / 1000, 20⟩ : RootSearch Rat).Reaches excess (decide (0 < excess 0)) (.initial 2 (excess 2) 0 (excess 0))
          (points ++ [moved.xCur]) (moved.following (excess moved.xCur))) := by
  have positive : (0 : Rat) < 1 / 1000 := by norm_num
  have apart : (2 : Rat) ≠ 0 := by norm_num
  have change : excess 2 * excess 0 < 0 := by norm_num [excess]
  have givenA : ∀ y ∈ (none : Option Rat), y = excess 2 := by simp
  have givenB : ∀ y ∈ some (-2 : Rat), y = excess 0 := by norm_num [excess]
  exact ⟨computes_noting excess, positive, apart, change, givenA, givenB,
    solve_rounds (computes_noting excess) positive apart change givenA givenB []⟩

end RootSearch

end Trajectory
