import Mathlib.Tactic
import Trajectory.Proofs.Genuine

/-!
What the members of a group have crossed at the time of their event.

A group has one time, the latest of its roots, and it holds the roots that are within the tolerance of the earliest
one. Every member has crossed zero at its own root (`Occurrence.Crosses`). If its switching function does not go back to
the sign before its root until the time of the group (`Occurrence.Undone`), which comes within that tolerance, it has
crossed at that time too. `integrate_crosses` says so of every group of a run. `undone_told` is a run in which a member
has gone back, though its own tolerance is a small part of the time between its root and the event.
-/

namespace Trajectory

open Session

variable {ω : Type} {forward : Bool}

/-- Whether a value of the switching function lies on the side to which an event leads, zero included. -/
def Occurrence.Crossed (o : Occurrence Rat) (value : Rat) : Prop :=
  if o.increasing = true then 0 ≤ value else value ≤ 0

section

variable [Spacing Rat] {course : Course ω Rat} {watches : List (Handler ω Rat × Settings Rat)}
  {watch : Handler ω Rat × Settings Rat} {leg : Leg Rat} {window : Window Rat} {t0 tolerance : Rat} {o : Occurrence Rat}

/-- Behind its root, and up to the time of the event, a switching function is back on the side from which the event has
led away. -/
def Occurrence.Undone (forward : Bool) (handler : Handler ω Rat) (step : Step Rat) (o : Occurrence Rat) : Prop :=
  ∃ s value, Precedes forward o.root s ∧ NotAfter forward s o.t ∧ handler.Along step s value ∧ ¬ o.Crossed value

/-- A switching function crosses zero at the root of an event. It has done so at the time of the event, which is within
a tolerance behind the root, if the crossing is not undone by then. -/
structure Occurrence.Crosses (forward : Bool) (handler : Handler ω Rat) (step : Step Rat) (tolerance : Rat)
    (o : Occurrence Rat) : Prop where
  reached : NotAfter forward o.root o.t
  near : |o.t - o.root| ≤ tolerance
  atRoot : ∃ value, handler.Along step o.root value ∧ o.Crossed value
  atEvent : ¬ o.Undone forward handler step → ∀ value, handler.Along step o.t value → o.Crossed value

/-- A root that the search of a handler has reported is one where its switching function has crossed zero. -/
theorem Occurrence.Reported.crossed {t : Rat} (gaps : ∀ x : Rat, 0 ≤ Spacing.ulp x)
    (directed : course.Directed watches t0) (reported : o.Reported watches course.forward window t)
    (shown : leg.Shows course.forward window) (registered : watches[o.index]? = some watch) :
    ∃ value, watch.1.Along leg.step o.root value ∧ o.Crossed value := by
  obtain ⟨⟨x, gx, value, _, _, _, along, _, increasing, side⟩, _⟩ := reported.along gaps directed shown registered
  refine ⟨value, along, ?_⟩
  unfold Occurrence.Crossed
  rcases side with rfl | ⟨opposite, _⟩
  · split <;> exact le_rfl
  · split
    · rename_i rises
      exact (opposite.mpr (increasing.mp rises)).le
    · rename_i falls
      exact not_lt.mp fun pos => falls (increasing.mpr (opposite.mp pos))

/-- An event within a tolerance behind the root of a handler. -/
theorem Occurrence.Reported.crosses {t : Rat} (gaps : ∀ x : Rat, 0 ≤ Spacing.ulp x)
    (directed : course.Directed watches t0) (reported : o.Reported watches course.forward window t)
    (shown : leg.Shows course.forward window) (registered : watches[o.index]? = some watch) (settled : watch.1.IsPure)
    (near : |o.t - o.root| ≤ tolerance) : o.Crosses course.forward watch.1 leg.step tolerance := by
  have reached : NotAfter course.forward o.root o.t := reported.time ▸ reported.reached
  obtain ⟨value, along, crossed⟩ := reported.crossed gaps directed shown registered
  refine ⟨reached, near, ⟨value, along, crossed⟩, fun lasting later alongLater => ?_⟩
  by_cases same : o.root = o.t
  · rw [← same] at alongLater
    rw [settled.along along alongLater]
    exact crossed
  · by_contra back
    exact lasting ⟨o.t, later, reached.precedes_of_ne same, .refl, alongLater, back⟩

/-- A group that a scan has located reaches from its earliest root to its time, which is the root of a member, and is
no longer than the tolerance of the handler with the earliest root. -/
theorem Course.spread_of_scan {s s' : Session ω Rat} {group : List (Occurrence Rat)}
    (directed : course.Directed watches t0)
    (kept : s.monitor.Keeps watches course.forward window.start window.yStart)
    (scanned : (Course.scan window).runFrom s = (.ok group, s')) (nonempty : group ≠ []) :
    ∃ winner ∈ group, ∃ latest ∈ group, ∃ winnerWatch, watches[winner.index]? = some winnerWatch ∧
      ∀ o ∈ group, o.t = latest.root ∧ NotAfter course.forward winner.root o.root ∧
        o.Reported watches course.forward window o.t ∧ |o.t - o.root| ≤ winnerWatch.2.convergence := by
  have found := Course.found_of_scan scanned
  obtain ⟨_, _, candidates, _, _, searched, rfl⟩ := Course.scan_ok scanned
  have occupied : candidates ≠ [] := by
    rintro rfl
    exact nonempty rfl
  obtain ⟨winner, leads, winnerWatch, winnerAt, spread, _⟩ := kept.winner directed searched occupied
  obtain ⟨latest, last, attained⟩ := found.attained winner leads
  refine ⟨winner, leads, latest, last, winnerWatch, winnerAt, fun o mem => ?_⟩
  have reported := kept.reported found leads o mem
  have time : o.t = latest.root := reported.time.trans attained
  rw [← reported.time] at reported
  refine ⟨time, (spread o mem).1, reported, ?_⟩
  -- the event is not farther behind the root than the latest root is behind the earliest one
  obtain ⟨order, wide⟩ := spread latest last
  have first := notAfter_iff_sign.mp (spread o mem).1
  rw [reported.reached.abs_sub, time]
  rw [order.abs_sub] at wide
  linarith

/-- A member of a group that a scan has located crosses zero within the tolerance of the earliest root. -/
theorem Course.crosses_of_scan (gaps : ∀ x : Rat, 0 ≤ Spacing.ulp x) {s s' : Session ω Rat}
    {group : List (Occurrence Rat)} (directed : course.Directed watches t0)
    (kept : s.monitor.Keeps watches course.forward window.start window.yStart)
    (shown : leg.Shows course.forward window) (scanned : (Course.scan window).runFrom s = (.ok group, s'))
    (nonempty : group ≠ []) :
    ∃ winner ∈ group, ∃ latest ∈ group, ∃ winnerWatch, watches[winner.index]? = some winnerWatch ∧
      ∀ o ∈ group, o.t = latest.root ∧ NotAfter course.forward winner.root o.root ∧
        ∃ watch, watches[o.index]? = some watch ∧
          (watch.1.IsPure → o.Crosses course.forward watch.1 window.step winnerWatch.2.convergence) := by
  obtain ⟨winner, leads, latest, last, winnerWatch, winnerAt, spread⟩ :=
    Course.spread_of_scan directed kept scanned nonempty
  refine ⟨winner, leads, latest, last, winnerWatch, winnerAt, fun o mem => ?_⟩
  obtain ⟨time, order, reported, near⟩ := spread o mem
  obtain ⟨watch, _, registered, _⟩ := reported.searched
  refine ⟨time, order, watch, registered, fun settled => ?_⟩
  rw [shown.part.step]
  exact reported.crosses gaps directed shown registered settled near

/-- Every group that the journal of a run has was found by a scan of its window. -/
theorem Course.scanned_of_located (gaps : ∀ x : Rat, 0 ≤ Spacing.ulp x) {s v : Session ω Rat} {q : Stage ω}
    {y0 : State Rat} {group : List (Occurrence Rat)} (directed : course.Directed watches t0)
    (path : Moves course (.opening t0 y0, s) (q, v)) (created : s.monitor = Monitor.create watches)
    (fresh : s.journal = []) (located : .located window group ∈ v.journal) :
    ∃ (leg : Leg Rat) (u u' : Session ω Rat), u.monitor.Keeps watches course.forward window.start window.yStart ∧
      leg.Shows course.forward window ∧ (Course.scan window).runFrom u = (.ok group, u') ∧ group ≠ [] := by
  obtain ⟨before, after, entries⟩ := List.append_of_mem located
  obtain ⟨p, u, q, u', earlier, short, writes, move, long, _⟩ := path.split fresh entries
  obtain ⟨route, shown⟩ := shows_moves gaps directed earlier created
  cases writes with
  | located =>
    cases move with
    | clear scanned =>
      rw [(sameAccount_scan scanned).journal, short] at long
      exact absurd long (by simp)
    | locate scanned =>
      rw [journal_noted, (sameAccount_scan scanned).journal, short] at long
      cases List.append_cancel_left long
      exact ⟨_, _, _, route.2, shown, scanned, List.cons_ne_nil _ _⟩

/-- A run is refused, or every group that it locates is as wide as the tolerance of a member with the earliest root,
and has the root of a member as its time. Every member with a pure switching function has crossed zero at its root,
within that tolerance of the time of the group, and has crossed at that time if it is not undone by then. -/
theorem Engine.integrate_crosses (gaps : ∀ x : Rat, 0 ≤ Spacing.ulp x) {e e' : Engine ω Rat} (usable : e.Usable)
    {equation : Equation ω Rat} {target : Rat} {y0 : State Rat} {r : Except (Error Rat) (Rat × State Rat)} {w w' : ω}
    (ran : (Engine.integrate equation t0 y0 target).runFrom (e, w) = (r, e', w')) {group : List (Occurrence Rat)}
    (located : .located window group ∈ e'.journal) :
    (∃ error, e.prepare equation t0 y0 target = .error error ∧ r = .error error) ∨
      ∃ winner ∈ group, ∃ latest ∈ group, ∃ winnerWatch, e.watches[winner.index]? = some winnerWatch ∧
        ∀ o ∈ group, o.t = latest.root ∧ NotAfter (decide (t0 < target)) winner.root o.root ∧
          ∃ watch, e.watches[o.index]? = some watch ∧ (watch.1.IsPure →
            o.Crosses (decide (t0 < target)) watch.1 window.step winnerWatch.2.convergence) := by
  rcases integrate_run ran with ⟨refused, _⟩ | ⟨course, session, prepared, ran, journal, _⟩
  · exact Or.inl refused
  right
  obtain ⟨directed, _, _, _, _, forward_eq⟩ := prepare_ok usable prepared
  obtain ⟨_, v, path, same, _⟩ := run_path ran
  have listed : .located window group ∈ v.journal := by rwa [← same.journal, ← journal]
  obtain ⟨leg, s, s', kept, shown, scanned, occupied⟩ := Course.scanned_of_located gaps directed path rfl rfl listed
  rw [← forward_eq]
  exact Course.crosses_of_scan gaps directed kept shown scanned occupied

end

/-- A coarse timer, a dip at the same time, and a timer that the tolerance of the coarse one joins with them. -/
def Engine.joined : Engine Unit Rat :=
  .timed 1 [(.timer (1 / 2) .carryOn (.ofList [0]), ⟨some (1 / 4), 1 / 2, 100, none⟩),
    (.dip (1 / 2) (5 / 8), ⟨some (1 / 4), 1 / 1000, 100, none⟩),
    (.timer (3 / 4) .carryOn (.ofList [0]), ⟨some (1 / 4), 1 / 1000, 100, none⟩)]

theorem Engine.joined_located :
    letI := Spacing.gapless
    .located (.ofStep .steady) [⟨0, 3 / 4, 1 / 2, true⟩, ⟨1, 3 / 4, 1 / 2, false⟩, ⟨2, 3 / 4, 3 / 4, true⟩] ∈
      ((Engine.integrate .steady 0 (.ofList [0]) 1).runFrom (Engine.joined, ())).2.1.journal := by
  decide +kernel

/-- The dip crosses zero at its root, as far before the event as the tolerance of the coarse timer allows. -/
theorem Engine.joined_crosses :
    letI := Spacing.gapless
    let run := (Engine.integrate .steady 0 (.ofList [0]) 1).runFrom (Engine.joined, ())
    ∃ group, .located (.ofStep .steady) group ∈ run.2.1.journal ∧ ∃ o ∈ group, ∃ tolerance, o.index = 1 ∧
      o.root ≠ o.t ∧ o.Crosses true (SwitchingFunction.dip (1 / 2) (5 / 8)).toHandler .steady tolerance := by
  let := Spacing.gapless
  intro run
  have usable : Engine.joined.Usable := usable_timed (by decide +kernel) (by decide +kernel)
  have returned : run.1.isOk = true := by decide +kernel
  let o : Occurrence Rat := ⟨1, 3 / 4, 1 / 2, false⟩
  rcases Engine.integrate_crosses (fun _ => le_rfl) usable (Prod.ext rfl rfl) joined_located with
    ⟨_, _, failed⟩ | ⟨_, _, _, _, winnerWatch, _, all⟩
  · have refused : run.1 = .error _ := failed
    rw [refused] at returned
    cases returned
  · obtain ⟨_, _, watch, registered, crosses⟩ := all o (by simp [o])
    cases registered
    exact ⟨_, joined_located, o, by simp [o], _, rfl, by decide +kernel,
      crosses (SwitchingFunction.isPure_toHandler fun _ _ => rfl)⟩

/-- A handler is told of a fall of its switching function at a time when this has risen again. -/
theorem Engine.undone_told :
    letI := Spacing.gapless
    let run := (Engine.integrate .steady 0 (.ofList [0]) 1).runFrom (Engine.joined, ())
    let o : Occurrence Rat := ⟨1, 3 / 4, 1 / 2, false⟩
    (∃ group, .located (.ofStep .steady) group ∈ run.2.1.journal ∧ o ∈ group) ∧
      .asked o (.ofList [3 / 4]) ∈ run.2.1.journal ∧
      (SwitchingFunction.dip (1 / 2) (5 / 8)).toHandler.Along .steady o.t (1 / 32) ∧ ¬ o.Crossed (1 / 32) := by
  let := Spacing.gapless
  intro run o
  have risen : (SwitchingFunction.dip (1 / 2) (5 / 8)).toHandler.Along .steady o.t (1 / 32) :=
    ⟨.ofList [3 / 4], by decide +kernel, (), (), by decide +kernel⟩
  exact ⟨⟨_, joined_located, by simp [o]⟩, by decide +kernel, risen, by norm_num [Occurrence.Crossed, o]⟩

end Trajectory
