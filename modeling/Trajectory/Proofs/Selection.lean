import Mathlib.Tactic
import Trajectory.Proofs.Reordering
import Trajectory.Proofs.Timer

/-!
Which handlers an event belongs to.

The roots that the channels of a monitor report are a list with a place for every channel
(`Monitor.firstRoots`). Its leader is the earliest root, and among equals the one with the lowest
index (`Leads`). A scan gathers the roots that lie behind the leader by no more than the tolerance of
the leader's channel, and nothing else; the latest of them is the time of the event, and the roots it
leaves out lie strictly behind that time (`Gathers`). `Monitor.scan_selects` says this of every scan,
for both directions and any number of channels, whatever the channels remember.
-/

namespace Trajectory

variable {ω : Type} {forward : Bool}

/-- The leader of some first roots: the earliest of them, with the lowest index among equals. -/
structure Leads (forward : Bool) (roots : List (Option (Crossing Rat))) (index : Nat) (leader : Crossing Rat) :
    Prop where
  reported : roots[index]? = some (some leader)
  earliest : ∀ (i : Nat) x, roots[i]? = some (some x) → NotAfter forward leader.root x.root
  lowest : ∀ (i : Nat) x, roots[i]? = some (some x) → x.root = leader.root → index ≤ i

/-- The group of the first event among some first roots, as seen from their leader with a
tolerance. -/
structure Gathers (forward : Bool) (tolerance : Rat) (roots : List (Option (Crossing Rat))) (leader : Crossing Rat)
    (group : List (Occurrence Rat)) (t : Rat) : Prop where
  occupied : group ≠ []
  ordered : group.Pairwise fun o o' => o.index < o'.index
  /-- The members are the handlers with a root in reach of the leader. -/
  members : ∀ i, (∃ o ∈ group, o.index = i) ↔
    ∃ x, roots[i]? = some (some x) ∧ runSign forward * (x.root - leader.root) ≤ tolerance
  /-- Every member carries its own root and direction, and the time of the event. -/
  own : ∀ o ∈ group, roots[o.index]? = some (some ⟨o.root, o.increasing⟩) ∧ o.t = t
  /-- The time of the event is the latest root of a member. -/
  latest : (∃ o ∈ group, o.root = t) ∧ ∀ o ∈ group, NotAfter forward o.root t
  /-- The roots of the other handlers lie strictly behind the event. -/
  behind : ∀ (i : Nat) x, roots[i]? = some (some x) → (∀ o ∈ group, o.index ≠ i) → Precedes forward t x.root

namespace Monitor

/-- Reported roots as candidates, each under the index of its channel. -/
def listed : Nat → List (Option (Crossing Rat)) → List (Candidate Rat)
  | _, [] => []
  | index, none :: rest => listed (index + 1) rest
  | index, some found :: rest => ⟨index, found⟩ :: listed (index + 1) rest

theorem mem_listed {base : Nat} {roots : List (Option (Crossing Rat))} {k : Candidate Rat} :
    k ∈ listed base roots ↔ ∃ i, k.index = base + i ∧ roots[i]? = some (some k.found) := by
  induction roots generalizing base with
  | nil => simp [listed]
  | cons reported rest ih =>
    have later : (∃ i, k.index = base + 1 + i ∧ rest[i]? = some (some k.found)) ↔
        ∃ i, k.index = base + (i + 1) ∧ (reported :: rest)[i + 1]? = some (some k.found) := by
      simp only [List.getElem?_cons_succ, Nat.add_assoc, Nat.add_comm 1]
    cases reported with
    | none =>
      rw [listed, ih, later]
      constructor
      · exact fun ⟨i, index, at_⟩ => ⟨i + 1, index, at_⟩
      · rintro ⟨_ | i, index, at_⟩
        · simp at at_
        · exact ⟨i, index, at_⟩
    | some found =>
      rw [listed, List.mem_cons, ih, later]
      constructor
      · rintro (rfl | ⟨i, index, at_⟩)
        · exact ⟨0, rfl, rfl⟩
        · exact ⟨i + 1, index, at_⟩
      · rintro ⟨_ | i, index, at_⟩
        · obtain rfl : found = k.found := by simpa using at_
          exact Or.inl (congrArg (Candidate.mk · k.found) index)
        · exact Or.inr ⟨i, index, at_⟩

theorem mem_listed_zero {roots : List (Option (Crossing Rat))} {k : Candidate Rat} :
    k ∈ listed 0 roots ↔ roots[k.index]? = some (some k.found) := by
  simp [mem_listed]

theorem listed_ordered (base : Nat) (roots : List (Option (Crossing Rat))) :
    (listed base roots).Pairwise fun c d => c.index < d.index := by
  induction roots generalizing base with
  | nil => exact .nil
  | cons reported rest ih =>
    cases reported with
    | none => exact ih (base + 1)
    | some found =>
      refine List.pairwise_cons.mpr ⟨fun k mem => ?_, ih (base + 1)⟩
      obtain ⟨i, index, _⟩ := mem_listed.mp mem
      exact (by omega : base < k.index)

/-- The group of some first roots, one of which there is. -/
theorem group_listed (forward : Bool) {roots : List (Option (Crossing Rat))} {tolerance : Nat → Rat}
    (positive : ∀ (i : Nat) x, roots[i]? = some (some x) → 0 < tolerance i) (occupied : listed 0 roots ≠ []) :
    ∃ index leader t, Leads forward roots index leader ∧
      Gathers forward (tolerance index) roots leader (group forward tolerance (listed 0 roots)) t := by
  obtain ⟨members, t, grouped, attained, bounded, _, filtered⟩ := group_eq forward tolerance (listed 0 roots)
  obtain ⟨winner, mem, earliest, lowest, rfl⟩ := filtered occupied
  have known := mem_listed_zero.mp mem
  have leads : Leads forward roots winner.index winner.found :=
    ⟨known, fun i x at_ => earliest ⟨i, x⟩ (mem_listed_zero.mpr at_),
      fun i x at_ => lowest (listed_ordered 0 roots) ⟨i, x⟩ (mem_listed_zero.mpr at_)⟩
  have joins : ∀ k, k ∈ (listed 0 roots).filter (fun c =>
        decide (|c.found.root - winner.found.root| ≤ tolerance winner.index)) ↔
      roots[k.index]? = some (some k.found) ∧
        runSign forward * (k.found.root - winner.found.root) ≤ tolerance winner.index := by
    intro k
    rw [List.mem_filter, mem_listed_zero, decide_eq_true_eq]
    exact and_congr_right fun at_ => by rw [(leads.earliest _ _ at_).abs_sub]
  have itself : winner ∈ (listed 0 roots).filter fun c =>
      decide (|c.found.root - winner.found.root| ≤ tolerance winner.index) :=
    (joins winner).mpr ⟨known, by simpa using (positive _ _ known).le⟩
  obtain ⟨last, joined, rfl⟩ := attained (List.ne_nil_of_mem itself)
  have inside : ∀ i, (∃ o ∈ group forward tolerance (listed 0 roots), o.index = i) ↔
      ∃ x, roots[i]? = some (some x) ∧ runSign forward * (x.root - winner.found.root) ≤ tolerance winner.index := by
    intro i
    rw [grouped]
    constructor
    · rintro ⟨_, mem, rfl⟩
      obtain ⟨k, member, rfl⟩ := List.mem_map.mp mem
      exact ⟨k.found, (joins k).mp member⟩
    · rintro ⟨x, near⟩
      exact ⟨_, List.mem_map_of_mem ((joins ⟨i, x⟩).mpr near), rfl⟩
  refine ⟨winner.index, winner.found, last.found.root, leads, ?_⟩
  constructor
  case occupied =>
    rw [grouped, ne_eq, List.map_eq_nil_iff]
    exact List.ne_nil_of_mem itself
  case ordered =>
    rw [grouped, List.pairwise_map]
    exact (listed_ordered 0 roots).filter _
  case members => exact inside
  case own =>
    intro o mem
    rw [grouped] at mem
    obtain ⟨k, member, rfl⟩ := List.mem_map.mp mem
    exact ⟨((joins k).mp member).1, rfl⟩
  case latest =>
    rw [grouped]
    refine ⟨⟨_, List.mem_map_of_mem joined, rfl⟩, fun o mem => ?_⟩
    obtain ⟨k, member, rfl⟩ := List.mem_map.mp mem
    exact bounded k member
  case behind =>
    intro i x at_ outside
    have far : ¬ runSign forward * (x.root - winner.found.root) ≤ tolerance winner.index := fun near =>
      have ⟨o, mem, index⟩ := (inside i).mpr ⟨x, at_, near⟩
      outside o mem index
    have near := ((joins last).mp joined).2
    rw [precedes_iff_sign]
    linarith

variable [Spacing Rat] {window : Window Rat}

/-- The first roots of some channels, asked for one after another. -/
def firstRoots (forward : Bool) (window : Window Rat) (channels : List (Channel ω Rat)) :
    Effect ω Rat (List (Option (Crossing Rat))) :=
  channels.mapM fun c => c.firstRoot forward window

theorem candidates_eq (forward : Bool) (window : Window Rat) (base : Nat) (channels : List (Channel ω Rat)) :
    candidates forward window base channels = listed base <$> firstRoots forward window channels := by
  induction channels generalizing base with
  | nil => simp [candidates, firstRoots, listed]
  | cons c rest ih =>
    simp only [candidates, firstRoots, List.mapM_cons, ih, map_bind, bind_map_left, map_pure]
    refine bind_congr fun found => ?_
    cases found <;> rfl

/-- There is one root or none for every channel. -/
theorem firstRoots_length {channels : List (Channel ω Rat)} {roots : List (Option (Crossing Rat))} {v v' : ω}
    (ran : (firstRoots forward window channels).runFrom v = (.ok roots, v')) : roots.length = channels.length := by
  induction channels generalizing roots v with
  | nil =>
    cases ran
    rfl
  | cons c rest ih =>
    simp only [firstRoots, List.mapM_cons, Effect.runFrom_bind_ok] at ran
    obtain ⟨found, v₁, _, later, v₂, others, ran⟩ := ran
    cases ran
    exact congrArg (· + 1) (ih others)

/-- What a monitor makes of the first roots of its channels: no group if there is none, and otherwise
what the leader gathers with the tolerance of its channel. -/
structure Selects (m : Monitor ω Rat) (roots : List (Option (Crossing Rat))) (group : List (Occurrence Rat)) :
    Prop where
  nothing : (∀ reported ∈ roots, reported = none) → group = []
  something : (∃ x, some x ∈ roots) → ∃ index leader c t, Leads m.forward roots index leader ∧
    m.channels[index]? = some c ∧ Gathers m.forward c.settings.convergence roots leader group t

/-- A scan fails as the first search that fails. If no search fails, the scan returns the group of the
leader of the roots that they report, and none if they report no root. -/
theorem scan_selects (m : Monitor ω Rat) (valid : ∀ c ∈ m.channels, c.settings.valid = true) (window : Window Rat)
    (v : ω) :
    (∃ e v', (firstRoots m.forward window m.channels).runFrom v = (.error e, v') ∧
      (scan window).runFrom (m, v) = (.error e, { m with status := .scanning }, v')) ∨
    ∃ roots group v', (firstRoots m.forward window m.channels).runFrom v = (.ok roots, v') ∧
      roots.length = m.channels.length ∧ m.Selects roots group ∧
      (scan window).runFrom (m, v) =
        (.ok group, { m with status := if group.isEmpty then .noEvent else .rootFound }, v') := by
  have searched := congrArg (·.runFrom v) (candidates_eq m.forward window 0 m.channels)
  rw [Effect.runFrom_map] at searched
  cases asked : (firstRoots m.forward window m.channels).runFrom v with
  | mk outcome v' =>
    rw [asked] at searched
    cases outcome with
    | error e =>
      refine Or.inl ⟨e, v', rfl, ?_⟩
      simp [scan, change, searched]
    | ok roots =>
      have count := firstRoots_length asked
      refine Or.inr ⟨roots, _, v', rfl, count, ⟨fun nothing => ?_, fun occupied => ?_⟩, runFrom_scan searched⟩
      · have empty : listed 0 roots = [] := by
          refine List.eq_nil_iff_forall_not_mem.mpr fun k mem => ?_
          cases nothing _ (List.mem_of_getElem? (mem_listed_zero.mp mem))
        rw [empty]
        rfl
      · have watched : ∀ (i : Nat) x, roots[i]? = some (some x) → ∃ c, m.channels[i]? = some c :=
          fun i x at_ => ⟨_, List.getElem?_eq_getElem (count ▸ (List.getElem?_eq_some_iff.mp at_).1)⟩
        have positive : ∀ (i : Nat) x, roots[i]? = some (some x) → 0 < m.tolerance i := by
          intro i x at_
          obtain ⟨c, at_'⟩ := watched i x at_
          rw [tolerance, at_']
          exact (Settings.valid_iff.mp (valid c (List.mem_of_getElem? at_'))).2.1
        obtain ⟨x, mem⟩ := occupied
        obtain ⟨i, at_⟩ := List.getElem?_of_mem mem
        have member : (⟨i, x⟩ : Candidate Rat) ∈ listed 0 roots := mem_listed_zero.mpr at_
        obtain ⟨index, leader, t, leads, gathers⟩ :=
          group_listed m.forward positive (List.ne_nil_of_mem member)
        obtain ⟨c, at_'⟩ := watched index leader leads.reported
        rw [tolerance, at_'] at gathers
        exact ⟨index, leader, c, t, leads, at_', gathers⟩

/-- Timers of which the second and the third lead with equal roots; the tolerance of the second reaches the
first, but neither the fourth nor the fifth. -/
def lineup : Monitor Unit Rat where
  channels :=
    [(5 / 8, 1 / 1000), (1 / 2, 1 / 8), (1 / 2, 1 / 2), (3 / 4, 1 / 2), (2, 1 / 8)].map fun (c, tolerance) =>
      .awaiting (.timer c .carryOn (.ofList [0])) ⟨none, tolerance, 100, none⟩ (-c)
  forward := true
  status := .noEvent

omit [Spacing Rat] in
theorem scan_selects_lineup :
    letI := Spacing.gapless
    (∀ c ∈ lineup.channels, c.settings.valid = true) ∧
      ∃ roots group, group.map (·.index) = [0, 1, 2] ∧ lineup.Selects roots group ∧
        (scan (.ofStep .steady)).runFrom (lineup, ()) = (.ok group, { lineup with status := .rootFound }, ()) := by
  let := Spacing.gapless
  have valid : ∀ c ∈ lineup.channels, c.settings.valid = true := by decide +kernel
  have found : ((scan (.ofStep .steady)).runFrom (lineup, ())).1 =
      .ok [⟨0, 5 / 8, 5 / 8, true⟩, ⟨1, 5 / 8, 1 / 2, true⟩, ⟨2, 5 / 8, 1 / 2, true⟩] := by
    decide +kernel
  rcases scan_selects lineup valid (.ofStep .steady) () with ⟨_, _, _, failed⟩ | ⟨roots, group, _, _, _, selects, ran⟩
  · rw [failed] at found
    cases found
  · rw [ran] at found
    cases found
    exact ⟨valid, roots, _, rfl, selects, ran⟩

end Monitor

end Trajectory
