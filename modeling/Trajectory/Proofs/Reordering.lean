import Mathlib.Tactic
import Trajectory.Proofs.Monitor
import Trajectory.Proofs.Steady

/-!
Monitors with their channels in another order.

Steady channels report the same roots at whatever place they stand (`Monitor.candidates_placed`). The
earliest of the roots, and the latest of those within a tolerance of it, do not depend on the order of
the candidates, so that a scan finds the same group if all tolerances are the same, with its members
in the order of their new places (`Monitor.scan_placed`).
-/

namespace Trajectory

variable {ω β γ : Type}

/-- The elements of a list, each in another place of another list. -/
structure Placed (place : Nat → Nat) (l l' : List β) : Prop where
  length : l'.length = l.length
  apart : ∀ i < l.length, ∀ j < l.length, place i = place j → i = j
  onto : ∀ j < l.length, ∃ i < l.length, place i = j
  same : ∀ i < l.length, l'[place i]? = l[i]?

namespace Placed

variable {place : Nat → Nat} {l l' : List β}

/-- Where an element of the second list stands in the first. -/
theorem origin (placed : Placed place l l') {j : Nat} {b : β} (at_ : l'[j]? = some b) :
    ∃ i < l.length, place i = j ∧ l[i]? = some b := by
  obtain ⟨bound, _⟩ := List.getElem?_eq_some_iff.mp at_
  obtain ⟨i, inside, rfl⟩ := placed.onto j (placed.length ▸ bound)
  exact ⟨i, inside, rfl, placed.same i inside ▸ at_⟩

theorem mem (placed : Placed place l l') {b : β} (mem : b ∈ l') : b ∈ l := by
  obtain ⟨j, at_⟩ := List.getElem?_of_mem mem
  obtain ⟨i, _, _, origin⟩ := placed.origin at_
  exact List.mem_of_getElem? origin

/-- Changes of the elements, each at its place. -/
theorem mapIdx (placed : Placed place l l') {f f' : Nat → β → γ} (alike : ∀ i < l.length, f' (place i) = f i) :
    Placed place (l.mapIdx f) (l'.mapIdx f') where
  length := by simp [placed.length]
  apart := by simpa using placed.apart
  onto := by simpa using placed.onto
  same i bound := by
    rw [List.length_mapIdx] at bound
    simp [placed.same i bound, alike i bound]

theorem map (placed : Placed place l l') (f : β → γ) : Placed place (l.map f) (l'.map f) where
  length := by simp [placed.length]
  apart := by simpa using placed.apart
  onto := by simpa using placed.onto
  same i bound := by
    rw [List.length_map] at bound
    simp [placed.same i bound]

/-- The elements of a list in a given order of their places. -/
theorem of_order {order : List Nat} (listed : order.Perm (List.range l.length)) :
    Placed order.idxOf l (order.filterMap (l[·]?)) := by
  have inside : ∀ i, i ∈ order ↔ i < l.length := fun i => listed.mem_iff.trans List.mem_range
  have distinct : order.Nodup := listed.nodup_iff.mpr List.nodup_range
  have count : order.length = l.length := listed.length_eq.trans List.length_range
  have all : (order.filterMap (l[·]?)).map some = order.map (l[·]?) := by
    have known : ∀ i ∈ order, i < l.length := fun i => (inside i).mp
    clear listed distinct count inside
    induction order with
    | nil => rfl
    | cons i order ih =>
      have bound := known i List.mem_cons_self
      rw [List.filterMap_cons_some (List.getElem?_eq_getElem bound), List.map_cons, List.map_cons,
        ih fun j mem => known j (List.mem_cons_of_mem i mem), List.getElem?_eq_getElem bound]
  constructor
  · simpa [count] using congrArg List.length all
  · intro i first j second same
    exact (List.idxOf_inj ((inside i).mpr first)).mp same
  · intro j bound
    have bound' : j < order.length := count ▸ bound
    exact ⟨order[j], (inside _).mp (List.getElem_mem bound'), distinct.idxOf_getElem j bound'⟩
  · intro i bound
    have at_ := congrArg (·[order.idxOf i]?) all
    simp only [List.getElem?_map] at at_
    rw [List.getElem?_idxOf ((inside i).mpr bound), Option.map_some, List.getElem?_eq_getElem bound] at at_
    rw [List.getElem?_eq_getElem bound]
    cases found : (order.filterMap (l[·]?))[order.idxOf i]? with
    | none =>
      rw [found] at at_
      cases at_
    | some b =>
      rw [found] at at_
      simpa using at_

end Placed

/-- A candidate with the new place of its handler. -/
def Candidate.placed (place : Nat → Nat) (k : Candidate Rat) : Candidate Rat := { k with index := place k.index }

/-- An occurrence with the new place of its handler. -/
def Occurrence.placed (place : Nat → Nat) (o : Occurrence Rat) : Occurrence Rat := { o with index := place o.index }

theorem NotAfter.antisymm {forward : Bool} {s t : Rat} (first : NotAfter forward s t) (second : NotAfter forward t s) :
    s = t := by
  cases forward with
  | true => exact le_antisymm first second
  | false => exact le_antisymm second first

namespace Monitor

variable {place : Nat → Nat} {forward : Bool}

/-- Groups of candidates that differ in their order and in the places of the handlers, with one tolerance, differ in
the same way. -/
theorem group_placed (forward : Bool) {tolerance tolerance' : Nat → Rat} {τ : Rat} {found found' : List (Candidate Rat)}
    (perm : found'.Perm (found.map (Candidate.placed place))) (alike : ∀ k ∈ found, tolerance k.index = τ)
    (alike' : ∀ k ∈ found', tolerance' k.index = τ) :
    (group forward tolerance' found').Perm ((group forward tolerance found).map (Occurrence.placed place)) := by
  have known : ∀ k ∈ found, k.placed place ∈ found' := fun k mem => perm.mem_iff.mpr (List.mem_map_of_mem mem)
  have origin : ∀ k' ∈ found', ∃ k ∈ found, k.placed place = k' := fun k' mem => List.mem_map.mp (perm.mem_iff.mp mem)
  obtain ⟨members, t, grouped, latest, bounded, _, filtered⟩ := group_eq forward tolerance found
  obtain ⟨members', t', grouped', latest', bounded', _, filtered'⟩ := group_eq forward tolerance' found'
  by_cases empty : found = []
  · subst empty
    obtain rfl := List.perm_nil.mp perm
    exact .nil
  obtain ⟨first, mem⟩ := List.exists_mem_of_ne_nil found empty
  obtain ⟨winner, member, least, _, rfl⟩ := filtered empty
  obtain ⟨winner', member', least', _, rfl⟩ := filtered' (List.ne_nil_of_mem (known first mem))
  -- The earliest roots are the same, and hence the members of the groups.
  have earliest : winner'.found.root = winner.found.root := by
    obtain ⟨k, candidate, rfl⟩ := origin winner' member'
    exact (least' _ (known winner member)).antisymm (least k candidate)
  have joined : (found'.filter fun c => decide (|c.found.root - winner'.found.root| ≤ tolerance' winner'.index)).Perm
      ((found.filter fun c => decide (|c.found.root - winner.found.root| ≤ tolerance winner.index)).map
        (Candidate.placed place)) := by
    rw [earliest, alike winner member, alike' winner' member']
    have kept := perm.filter fun c => decide (|c.found.root - winner.found.root| ≤ τ)
    rwa [List.filter_map] at kept
  generalize found.filter _ = members at *
  generalize found'.filter _ = members' at *
  rw [grouped, grouped']
  have moved := joined.map fun c => (⟨c.index, t', c.found.root, c.found.increasing⟩ : Occurrence Rat)
  rw [List.map_map] at moved ⊢
  by_cases lonely : members = []
  · subst lonely
    exact moved
  · -- So is the latest of their roots.
    obtain ⟨c, mem, rfl⟩ := latest lonely
    have own : c.placed place ∈ members' := joined.mem_iff.mpr (List.mem_map_of_mem mem)
    obtain ⟨c', mem', rfl⟩ := latest' (List.ne_nil_of_mem own)
    obtain ⟨d, member, rfl⟩ := List.mem_map.mp (joined.mem_iff.mp mem')
    have same : c.found.root = (d.placed place).found.root := (bounded' _ own).antisymm (bounded d member)
    rw [same]
    exact moved

variable [Spacing Rat] {window : Window Rat}

/-- The searches of all channels have one outcome. -/
theorem candidates_apart (base : Nat) {channels : List (Channel ω Rat)}
    (each : ∀ c ∈ channels, ∃ r, ∀ v, (c.firstRoot forward window).runFrom v = (.ok r, v)) :
    ∃ found, ∀ v, (candidates forward window base channels).runFrom v = (.ok found, v) := by
  induction channels generalizing base with
  | nil => exact ⟨[], fun v => rfl⟩
  | cons c rest ih =>
    obtain ⟨r, first⟩ := each c List.mem_cons_self
    obtain ⟨later, others⟩ := ih (base + 1) fun d mem => each d (List.mem_cons_of_mem c mem)
    cases r with
    | none => exact ⟨later, fun v => by simp [candidates, first, others]⟩
    | some crossing => exact ⟨⟨base, crossing⟩ :: later, fun v => by simp [candidates, first, others]⟩

section

variable {channels channels' : List (Channel ω Rat)} {found : List (Candidate Rat)} {v v' : ω}

theorem eq_of_returns (steady : ∀ c ∈ channels, c.handler.Steady) {i : Nat} {c : Channel ω Rat}
    (at_ : channels[i]? = some c) {r r' : Option (Crossing Rat)} (first : (c.firstRoot forward window).Returns r)
    (second : (c.firstRoot forward window).Returns r') : r = r' := by
  obtain ⟨u, u', returned⟩ := first
  obtain ⟨w, w', again⟩ := second
  rw [((Channel.steady_firstRoot (steady c (List.mem_of_getElem? at_)) window).runFrom returned).2 w] at again
  cases again
  rfl

/-- The candidates of steady channels are the roots that the channels report. -/
theorem mem_candidates (steady : ∀ c ∈ channels, c.handler.Steady)
    (ran : (candidates forward window 0 channels).runFrom v = (.ok found, v')) {k : Candidate Rat} :
    k ∈ found ↔ ∃ c, channels[k.index]? = some c ∧ (c.firstRoot forward window).Returns (some k.found) := by
  obtain ⟨_, reported, complete⟩ := candidates_ok ran
  constructor
  · intro mem
    obtain ⟨i, c, index, at_, returned⟩ := reported k mem
    rw [Nat.zero_add] at index
    exact ⟨c, index ▸ at_, returned⟩
  · rintro ⟨c, at_, returned⟩
    rcases complete _ c at_ with nothing | ⟨d, mem, index⟩
    · cases eq_of_returns steady at_ nothing returned
    · obtain ⟨i, c', index', at_', returned'⟩ := reported d mem
      obtain rfl : i = k.index := by omega
      cases at_.symm.trans at_'
      have crossing : k.found = d.found := Option.some.inj (eq_of_returns steady at_ returned returned')
      have same : d = k := congrArg₂ Candidate.mk (by omega) crossing.symm
      exact same ▸ mem

/-- Steady channels report the same roots at their new places, in the order of these. -/
theorem candidates_placed (placed : Placed place channels channels') (steady : ∀ c ∈ channels, c.handler.Steady)
    (ran : (candidates forward window 0 channels).runFrom v = (.ok found, v')) :
    v' = v ∧ ∃ found', (candidates forward window 0 channels').runFrom v = (.ok found', v) ∧
      found'.Perm (found.map (Candidate.placed place)) := by
  have steady' : ∀ c ∈ channels', c.handler.Steady := fun c mem => steady c (placed.mem mem)
  have each : ∀ c ∈ channels, ∃ r, ∀ v, (c.firstRoot forward window).runFrom v = (.ok r, v) := by
    intro c mem
    obtain ⟨i, at_⟩ := List.getElem?_of_mem mem
    obtain ⟨r, u, u', returned⟩ : ∃ r, (c.firstRoot forward window).Returns r := by
      obtain ⟨_, reported, complete⟩ := candidates_ok ran
      rcases complete i c at_ with nothing | ⟨k, listed, index⟩
      · exact ⟨_, nothing⟩
      · obtain ⟨j, d, index', at_', returned⟩ := reported k listed
        obtain rfl : j = i := by omega
        cases at_.symm.trans at_'
        exact ⟨_, returned⟩
    exact ⟨r, ((Channel.steady_firstRoot (steady c mem) window).runFrom returned).2⟩
  obtain ⟨again, always⟩ := candidates_apart 0 each
  obtain ⟨found', always'⟩ := candidates_apart 0 fun c mem => each c (placed.mem mem)
  have unchanged : v' = v := by
    rw [always v] at ran
    cases ran
    rfl
  refine ⟨unchanged, found', always' v, ?_⟩
  have bound : ∀ k ∈ found, k.index < channels.length := by
    intro k mem
    obtain ⟨c, at_, _⟩ := (mem_candidates steady ran).mp mem
    exact (List.getElem?_eq_some_iff.mp at_).1
  have distinct : (found.map (Candidate.placed place)).Nodup := by
    apply List.Nodup.map_on
    · intro k mem d mem' same
      have index := placed.apart _ (bound k mem) _ (bound d mem') (congrArg Candidate.index same)
      have crossing : (k.placed place).found = (d.placed place).found := congrArg Candidate.found same
      exact congrArg₂ Candidate.mk index crossing
    · exact (candidates_ok ran).1.imp fun less same => (same ▸ less).ne rfl
  have distinct' : found'.Nodup := (candidates_ok (always' v)).1.imp fun less same => (same ▸ less).ne rfl
  rw [List.perm_ext_iff_of_nodup distinct' distinct]
  intro k'
  rw [mem_candidates steady' (always' v), List.mem_map]
  constructor
  · rintro ⟨c, at_, returned⟩
    obtain ⟨i, inside, index, at_⟩ := placed.origin at_
    refine ⟨⟨i, k'.found⟩, (mem_candidates steady ran).mpr ⟨c, at_, returned⟩, ?_⟩
    rw [Candidate.placed, index]
  · rintro ⟨k, mem, rfl⟩
    obtain ⟨c, at_, returned⟩ := (mem_candidates steady ran).mp mem
    exact ⟨c, (placed.same _ (bound k mem)).trans at_, returned⟩

end

/-- A monitor of so many steady channels with one tolerance, and one with the channels at new places. -/
structure Placed (place : Nat → Nat) (count : Nat) (τ : Rat) (m m' : Monitor ω Rat) : Prop where
  channels : Trajectory.Placed place m.channels m'.channels
  length : m.channels.length = count
  forward : m'.forward = m.forward
  steady : ∀ c ∈ m.channels, c.handler.Steady
  convergence : ∀ c ∈ m.channels, c.settings.convergence = τ

variable {count : Nat} {τ : Rat} {m m' m₁ : Monitor ω Rat} {v v' : ω} {t : Rat} {y : State Rat}

omit [Spacing Rat] in
theorem tolerance_eq (uniform : ∀ c ∈ m.channels, c.settings.convergence = τ) {i : Nat} {c : Channel ω Rat}
    (at_ : m.channels[i]? = some c) : m.tolerance i = τ := by
  rw [tolerance, at_]
  exact uniform c (List.mem_of_getElem? at_)

theorem runFrom_scan {found : List (Candidate Rat)}
    (searched : (candidates m.forward window 0 m.channels).runFrom v = (.ok found, v')) :
    (scan window).runFrom (m, v) = (.ok (group m.forward m.tolerance found),
      { m with status := if (group m.forward m.tolerance found).isEmpty then .noEvent else .rootFound }, v') := by
  simp [scan, change, searched]
  exact ⟨rfl, rfl⟩

/-- A scan finds the same group at the new places, in the order of these. -/
theorem scan_placed (placed : m.Placed place count τ m') {found : List (Occurrence Rat)}
    (ran : (scan window).runFrom (m, v) = (.ok found, m₁, v')) :
    v' = v ∧ ∃ found' m₁', (scan window).runFrom (m', v) = (.ok found', m₁', v) ∧ m₁.Placed place count τ m₁' ∧
      found'.Perm (found.map (Occurrence.placed place)) ∧ m.Found window found ∧ m'.Found window found' := by
  obtain ⟨channels, forward, roots, searched, rfl⟩ := scan_ok ran
  obtain ⟨rfl, roots', searched', perm⟩ := candidates_placed placed.channels placed.steady searched
  rw [← placed.forward] at searched'
  have steady' : ∀ c ∈ m'.channels, c.handler.Steady := fun c mem => placed.steady c (placed.channels.mem mem)
  have uniform' : ∀ c ∈ m'.channels, c.settings.convergence = τ :=
    fun c mem => placed.convergence c (placed.channels.mem mem)
  have alike : ∀ k ∈ roots, m.tolerance k.index = τ := by
    intro k mem
    obtain ⟨c, at_, _⟩ := (mem_candidates placed.steady searched).mp mem
    exact tolerance_eq placed.convergence at_
  have alike' : ∀ k ∈ roots', m'.tolerance k.index = τ := by
    intro k mem
    obtain ⟨c, at_, _⟩ := (mem_candidates steady' searched').mp mem
    exact tolerance_eq uniform' at_
  have grouped := group_placed m.forward perm alike alike'
  rw [← placed.forward] at grouped
  refine ⟨rfl, _, _, runFrom_scan searched', ?_, ?_, found_of_candidates _ searched, found_of_candidates _ searched'⟩
  · exact ⟨channels ▸ placed.channels, channels ▸ placed.length, placed.forward.trans forward.symm,
      channels ▸ placed.steady, channels ▸ placed.convergence⟩
  · rw [placed.forward] at grouped ⊢
    exact grouped

omit [Spacing Rat]

/-- What is done to each channel by itself is done to it at its new place. -/
theorem onChannels_placed {x : Effect (Channel ω Rat × ω) Rat Unit} (placed : m.Placed place count τ m')
    (apart : ∀ c ∈ m.channels,
      Effect.Apart (fun c c' : Channel ω Rat => c'.handler = c.handler ∧ c'.settings = c.settings) x c)
    (ran : (onChannels (Effect.forEach x)).runFrom (m, v) = (.ok (), m₁, v')) :
    v' = v ∧ ∃ m₁', (onChannels (Effect.forEach x)).runFrom (m', v) = (.ok (), m₁', v) ∧
      m₁.Placed place count τ m₁' := by
  obtain ⟨⟨channels, u⟩, each, same⟩ := Effect.runFrom_within_ok.mp ran
  cases same
  obtain ⟨rfl, f, rfl, changed⟩ := Effect.forEach_apart_ok apart each
  have each' := Effect.forEach_apart (fun c mem => (changed c (placed.channels.mem mem)).2) v'
  refine ⟨rfl, { m' with channels := m'.channels.map f }, Effect.runFrom_within_ok.mpr ⟨_, each', rfl⟩, ?_⟩
  constructor
  · exact placed.channels.map f
  · simpa using placed.length
  · exact placed.forward
  · intro c mem
    obtain ⟨d, member, rfl⟩ := List.mem_map.mp mem
    rw [(changed d member).1.1]
    exact placed.steady d member
  · intro c mem
    obtain ⟨d, member, rfl⟩ := List.mem_map.mp mem
    rw [(changed d member).1.2]
    exact placed.convergence d member

theorem commit_placed (placed : m.Placed place count τ m') (ran : (commit t y).runFrom (m, v) = (.ok (), m₁, v')) :
    v' = v ∧ ∃ m₁', (commit t y).runFrom (m', v) = (.ok (), m₁', v) ∧ m₁.Placed place count τ m₁' :=
  onChannels_placed placed (fun c mem => apart_commit (placed.steady c mem)) ran

theorem init_placed {target : Rat} (placed : m.Placed place count τ m')
    (ran : (init t y target).runFrom (m, v) = (.ok (), m₁, v')) :
    v' = v ∧ ∃ m₁', (init t y target).runFrom (m', v) = (.ok (), m₁', v) ∧ m₁.Placed place count τ m₁' := by
  unfold init change at ran ⊢
  rw [Effect.runFrom_bind, Effect.runFrom_modify] at ran ⊢
  dsimp only at ran ⊢
  obtain ⟨_, ⟨m₂, u⟩, each, left⟩ := Effect.runFrom_bind_ok.mp ran
  have turned : Placed place count τ { m with forward := decide (t ≤ target) }
      { m' with forward := decide (t ≤ target) } :=
    ⟨placed.channels, placed.length, rfl, placed.steady, placed.convergence⟩
  obtain ⟨rfl, m₂', each', placed'⟩ := onChannels_placed turned (fun c mem => apart_init (placed.steady c mem)) each
  rw [Effect.runFrom_modify] at left
  cases left
  refine ⟨rfl, _, Effect.runFrom_bind_ok.mpr ⟨_, _, each', Effect.runFrom_modify _ _⟩, ?_⟩
  exact ⟨placed'.channels, placed'.length, placed'.forward, placed'.steady, placed'.convergence⟩

end Monitor

end Trajectory
