import Mathlib.Tactic
import Trajectory.Proofs.Crossing

/-!
How far from a change of its switching function a handler is told of an event.

The root of a member of a group is located with the member's own tolerance: there the switching function is zero, or it
has both signs no farther away than that tolerance permits (`Handler.ChangesNear`). The time that the member is told is
that of the group, which may lie behind the root by the tolerance of the handler with the earliest root
(`Occurrence.Timed`). A handler is told of its event at its own tolerance if the root is that close to the event, as it
is where no tolerance is greater than its own. `strung_late` is a run with a coarse timer and two fine ones, in which a
fine one is told of its event a hundred times its tolerance behind its only zero.
-/

namespace Trajectory

open Session

variable {ω : Type}

/-- How far from a time the points may lie that show a change of sign there to a search with some settings. -/
def Settings.reach (settings : Settings Rat) (t : Rat) : Rat :=
  2 * settings.convergence + 2 * relativeTolerance * |t|

section

variable {r x t τ : Rat}

theorem relativeTolerance_small : (relativeTolerance : Rat) ≤ 1 / 8 := by
  norm_num [relativeTolerance]

/-- Points that show a change of sign at a root are near the root on the scale of the root. -/
theorem isolated_near (close : |r - x| < τ + relativeTolerance * max |r| |x|) :
    |x - r| * (1 - relativeTolerance) ≤ τ + relativeTolerance * |r| := by
  have scale : max |r| |x| ≤ |r| + |x - r| := by
    refine max_le (le_add_of_nonneg_right (abs_nonneg _)) ?_
    calc |x| = |r + (x - r)| := by rw [add_sub_cancel]
      _ ≤ |r| + |x - r| := abs_add_le _ _
  have wide := mul_le_mul_of_nonneg_left scale relativeTolerance_pos.le
  rw [abs_sub_comm] at close
  linarith

theorem isolated_at_root (positive : 0 < τ) (close : |r - x| < τ + relativeTolerance * max |r| |x|) :
    |x - r| ≤ 2 * τ + 2 * relativeTolerance * |r| := by
  have near := isolated_near close
  have small := mul_le_mul_of_nonneg_left relativeTolerance_small (abs_nonneg (x - r))
  have slack := mul_nonneg relativeTolerance_pos.le (abs_nonneg r)
  linarith

theorem isolated_at_event (close : |r - x| < τ + relativeTolerance * max |r| |x|) (told : |t - r| ≤ τ)
    (far : 3 * τ ≤ |t|) : |x - t| ≤ 2 * τ + 2 * relativeTolerance * |t| := by
  have near := isolated_near close
  have positive : 0 ≤ τ := (abs_nonneg _).trans told
  have shift : |r| ≤ |t| + τ := by
    have way := abs_sub_abs_le_abs_sub r t
    rw [abs_sub_comm] at way
    linarith
  have bound := mul_le_mul_of_nonneg_left shift relativeTolerance_pos.le
  have small := mul_le_mul_of_nonneg_right relativeTolerance_small (abs_nonneg t)
  -- What the relative part gains between the root and the event is covered by the size of the event's time.
  have spare : 0 ≤ relativeTolerance * (|t| - 2 * τ - 2 * (relativeTolerance * |t|)) :=
    mul_nonneg relativeTolerance_pos.le (by linarith)
  have change : |x - r| ≤ τ + 2 * relativeTolerance * |t| := by
    refine le_of_mul_le_mul_right ?_ (by linarith [relativeTolerance_small] : (0 : Rat) < 1 - relativeTolerance)
    linarith
  calc |x - t| ≤ |x - r| + |r - t| := abs_sub_le _ _ _
    _ ≤ 2 * τ + 2 * relativeTolerance * |t| := by
      rw [abs_sub_comm r t]
      linarith

end

theorem Journal.mem_of_groups {j : Journal Rat} {window : Window Rat} {group : List (Occurrence Rat)}
    (mem : (window, group) ∈ j.groups) : .located window group ∈ j := by
  obtain ⟨entry, listed, own⟩ := List.mem_filterMap.mp mem
  cases entry with
  | located =>
    cases own
    exact listed
  | _ => cases own

section

variable [Spacing Rat] {course : Course ω Rat} {watches : List (Handler ω Rat × Settings Rat)}
  {watch : Handler ω Rat × Settings Rat} {leg : Leg Rat} {window : Window Rat} {t0 t tolerance : Rat}
  {o : Occurrence Rat}

/-- Along the dense output of a step a switching function is zero near a time, or it has both signs not far from it. -/
def Handler.ChangesNear (handler : Handler ω Rat) (step : Step Rat) (t near far : Rat) : Prop :=
  (∃ s, |s - t| ≤ near ∧ handler.Along step s 0) ∨
    ∃ s s' value value', |s - t| ≤ far ∧ |s' - t| ≤ far ∧ handler.Along step s value ∧
      handler.Along step s' value' ∧ value * value' < 0

/-- When a handler is told of an event: within some tolerance of a root at which its switching function changes, as
close to the root as the handler's own tolerance permits. -/
structure Occurrence.Timed (watch : Handler ω Rat × Settings Rat) (step : Step Rat) (tolerance : Rat)
    (o : Occurrence Rat) : Prop where
  near : |o.t - o.root| ≤ tolerance
  atRoot : watch.1.ChangesNear step o.root 0 (watch.2.reach o.root)
  /-- The change is as close to the event if the root is. The relative part of the bound is too small for this near
  the origin of time. -/
  atEvent : |o.t - o.root| ≤ watch.2.convergence → o.t = o.root ∨ 3 * watch.2.convergence ≤ |o.t| →
    watch.1.ChangesNear step o.t watch.2.convergence (watch.2.reach o.t)

/-- An event within a tolerance of a root that the search of its handler has reported. -/
theorem Occurrence.Reported.timed (gaps : ∀ x : Rat, 0 ≤ Spacing.ulp x) (directed : course.Directed watches t0)
    (reported : o.Reported watches course.forward window t) (shown : leg.Shows course.forward window)
    (registered : watches[o.index]? = some watch) (near : |o.t - o.root| ≤ tolerance) :
    o.Timed watch leg.step tolerance := by
  obtain ⟨⟨x, gx, gr, _, _, atPoint, atRoot, nonzero, _, side⟩, _⟩ := reported.along gaps directed shown registered
  have positive : 0 < watch.2.convergence :=
    (Settings.valid_iff.mp (directed.valid watch (List.mem_of_getElem? registered))).2.1
  have wide : ∀ t, 0 ≤ watch.2.reach t := by
    intro t
    have relative := mul_nonneg relativeTolerance_pos.le (abs_nonneg t)
    rw [Settings.reach]
    linarith
  by_cases zero : gr = 0
  · subst zero
    refine ⟨near, Or.inl ⟨o.root, by simp, atRoot⟩, fun own _ => Or.inl ⟨o.root, ?_, atRoot⟩⟩
    rwa [abs_sub_comm]
  · obtain ⟨opposite, close⟩ := side.resolve_left zero
    have signs := mul_neg_of_opposite nonzero zero opposite
    refine ⟨near, Or.inr ⟨o.root, x, gr, gx, ?_, isolated_at_root positive close, atRoot, atPoint, signs⟩,
      fun own place => Or.inr ⟨o.root, x, gr, gx, ?_, ?_, atRoot, atPoint, signs⟩⟩
    · simpa using wide o.root
    · have relative := mul_nonneg relativeTolerance_pos.le (abs_nonneg o.t)
      rw [abs_sub_comm, Settings.reach]
      linarith
    · rcases place with same | far
      · rw [same]
        exact isolated_at_root positive close
      · exact isolated_at_event close own far

/-- The group to which a handler is told that it belongs is the one that was located last. -/
theorem Course.group_of_asked {s v : Session ω Rat} {q : Stage ω} {y0 y : State Rat} {before after : Journal Rat}
    (path : Moves course (.opening t0 y0, s) (q, v)) (told : v.journal = before ++ .asked o y :: after)
    (fresh : s.journal = []) :
    ∃ window group, before.groups.getLast? = some (window, group) ∧ o ∈ group := by
  obtain ⟨p, u, q', u', earlier, short, writes, move, long, _⟩ := path.split fresh told
  have cites : p.Cites u.journal :=
    earlier.preserve (P := fun q u => q.Cites u.journal) trivial fun _ _ _ _ cites move => cites_move move cites
  cases writes with
  | @asked cut o rest verdict =>
    obtain ⟨group, last, members⟩ := cites
    exact ⟨cut.window, group, short ▸ last, members o List.mem_cons_self⟩

/-- A run is refused, or every event that a handler is told of in it belongs to a group, located before, of the
handler with the earliest root. The event is within the tolerance of that handler of the told handler's root. -/
theorem Engine.integrate_timed (gaps : ∀ x : Rat, 0 ≤ Spacing.ulp x) {e e' : Engine ω Rat} (usable : e.Usable)
    {equation : Equation ω Rat} {target : Rat} {y0 y : State Rat} {r : Except (Error Rat) (Rat × State Rat)} {w w' : ω}
    (ran : (Engine.integrate equation t0 y0 target).runFrom (e, w) = (r, e', w')) {before after : Journal Rat}
    (told : e'.journal = before ++ .asked o y :: after) :
    (∃ error, e.prepare equation t0 y0 target = .error error ∧ r = .error error) ∨
      ∃ window group winner winnerWatch watch, before.groups.getLast? = some (window, group) ∧ o ∈ group ∧
        winner ∈ group ∧ (∀ member ∈ group, NotAfter (decide (t0 < target)) winner.root member.root) ∧
        e.watches[winner.index]? = some winnerWatch ∧ e.watches[o.index]? = some watch ∧
        o.Timed watch window.step winnerWatch.2.convergence := by
  rcases integrate_run ran with ⟨refused, _⟩ | ⟨course, session, prepared, ran, journal, _⟩
  · exact Or.inl refused
  right
  obtain ⟨directed, _, _, _, _, forward_eq⟩ := prepare_ok usable prepared
  obtain ⟨_, v, path, same, _⟩ := run_path ran
  have entries : v.journal = before ++ .asked o y :: after := by rw [← same.journal, ← journal, told]
  obtain ⟨window, group, last, member⟩ := Course.group_of_asked path entries rfl
  have listed : .located window group ∈ v.journal := by
    rw [entries]
    exact List.mem_append_left _ (Journal.mem_of_groups (List.mem_of_getLast? last))
  obtain ⟨leg, s, s', kept, shown, scanned, occupied⟩ := Course.scanned_of_located gaps directed path rfl rfl listed
  obtain ⟨winner, leads, _, _, winnerWatch, winnerAt, spread⟩ :=
    Course.spread_of_scan directed kept scanned occupied
  obtain ⟨_, _, reported, near⟩ := spread o member
  obtain ⟨watch, _, registered, _⟩ := reported.searched
  refine ⟨window, group, winner, winnerWatch, watch, last, member, leads, fun member mem => ?_, winnerAt, registered,
    ?_⟩
  · exact forward_eq ▸ (spread member mem).2.1
  · exact shown.part.step ▸ reported.timed gaps directed shown registered near

end

/-- A coarse timer, and two fine ones that the tolerance of the coarse one joins with it. -/
def Engine.strung : Engine Unit Rat :=
  .timed 1 [(.timer (1 / 2) .carryOn (.ofList [0]), ⟨some (1 / 4), 1 / 2, 100, none⟩),
    (.timer (5 / 8) .carryOn (.ofList [0]), ⟨some (1 / 4), 1 / 1000, 100, none⟩),
    (.timer (3 / 4) .carryOn (.ofList [0]), ⟨some (1 / 4), 1 / 1000, 100, none⟩)]

/-- The second timer is told of its event within the tolerance of the first one of its root. -/
theorem Engine.strung_timed :
    letI := Spacing.gapless
    let run := (Engine.integrate .steady 0 (.ofList [0]) 1).runFrom (Engine.strung, ())
    let o : Occurrence Rat := ⟨1, 3 / 4, 5 / 8, true⟩
    .asked o (.ofList [3 / 4]) ∈ run.2.1.journal ∧
      ∃ watch, Engine.strung.watches[1]? = some watch ∧ o.Timed watch .steady (1 / 2) := by
  let := Spacing.gapless
  intro run o
  have usable : Engine.strung.Usable := usable_timed (by decide +kernel) (by decide +kernel)
  have told : run.2.1.journal =
      [.located (.ofStep .steady) [⟨0, 3 / 4, 1 / 2, true⟩, o, ⟨2, 3 / 4, 3 / 4, true⟩],
        .asked ⟨0, 3 / 4, 1 / 2, true⟩ (.ofList [3 / 4]), .answered 0 .carryOn] ++
      .asked o (.ofList [3 / 4]) :: run.2.1.journal.drop 4 := by
    decide +kernel
  have returned : run.1.isOk = true := by decide +kernel
  rcases Engine.integrate_timed (fun _ => le_rfl) usable (Prod.ext rfl rfl) told with
    ⟨_, _, failed⟩ | ⟨_, _, winner, _, watch, last, _, leads, first, winnerAt, registered, timed⟩
  · have refused : run.1 = .error _ := failed
    rw [refused] at returned
    cases returned
  · cases last
    have index : winner.index = 0 := by
      have least := first ⟨0, 3 / 4, 1 / 2, true⟩ List.mem_cons_self
      simp only [List.mem_cons, List.not_mem_nil, or_false] at leads
      rcases leads with rfl | rfl | rfl
      · rfl
      · exact absurd least (by norm_num [NotAfter, o])
      · exact absurd least (by norm_num [NotAfter])
    rw [index] at winnerAt
    cases winnerAt
    exact ⟨told ▸ by simp, watch, registered, timed⟩

theorem SwitchingFunction.timer_along [Spacing Rat] {c : Rat} {action : Action} {next : State Rat} {step : Step Rat}
    {t value : Rat} (along : (timer c action next : SwitchingFunction ω Rat).toHandler.Along step t value) :
    value = t - c := by
  obtain ⟨_, _, returned⟩ := along
  exact Effect.eq_of_returns_pure returned

/-- The second timer is told of its event long after its only zero, on the scale of its tolerance. -/
theorem Engine.strung_late :
    letI := Spacing.gapless
    let run := (Engine.integrate .steady 0 (.ofList [0]) 1).runFrom (Engine.strung, ())
    let o : Occurrence Rat := ⟨1, 3 / 4, 5 / 8, true⟩
    .asked o (.ofList [3 / 4]) ∈ run.2.1.journal ∧ ∃ watch, Engine.strung.watches[o.index]? = some watch ∧
      watch.2.convergence < |o.t - o.root| ∧
      ¬ watch.1.ChangesNear .steady o.t watch.2.convergence (watch.2.reach o.t) := by
  let := Spacing.gapless
  intro run o
  refine ⟨by decide +kernel, _, rfl, by norm_num [o], ?_⟩
  rintro (⟨s, near, along⟩ | ⟨s, s', value, value', near, near', along, along', signs⟩)
  · have zero := SwitchingFunction.timer_along along
    have bounds := abs_le.mp near
    norm_num [o] at bounds
    linarith
  · have bounds := abs_le.mp near
    have bounds' := abs_le.mp near'
    norm_num [o, Settings.reach, relativeTolerance] at bounds bounds'
    rw [SwitchingFunction.timer_along along, SwitchingFunction.timer_along along'] at signs
    have positive : 0 < (s - 5 / 8) * (s' - 5 / 8) := mul_pos (by linarith) (by linarith)
    exact signs.not_gt positive

end Trajectory
