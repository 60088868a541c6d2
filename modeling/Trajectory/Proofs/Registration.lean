import Mathlib.Tactic
import Trajectory.Proofs.Asking
import Trajectory.Proofs.Delivery
import Trajectory.Proofs.Genuine
import Trajectory.Proofs.Reordering
import Trajectory.Proofs.Timer

/-!
The order in which handlers are registered.

Handlers that keep to themselves, that have one tolerance, and that let the run go on do not depend on
the order in which they are registered: in any other order, a run that returns does the same. Only the
members of a group of events are told of it in another order, that of their new places
(`Engine.integrate_reordered`).
-/

namespace Trajectory

open Effect

variable {ω β γ : Type} {place : Nat → Nat} {count : Nat} {τ : Rat}

/-- The notifications of one group of events, and those of the handlers at their new places: the same ones, in the
order of these places. -/
def RoundMoved (place : Nat → Nat) (round round' : List (Occurrence Rat × State Rat)) : Prop :=
  round'.Perm (round.map fun (o, y) => (o.placed place, y)) ∧ round'.Pairwise fun n n' => n.1.index < n'.1.index

/-- What the handler at a place has heard: the times and states of its events, with the directions. -/
def Journal.heard (j : Journal Rat) (index : Nat) : List (Rat × State Rat × Bool) :=
  (j.notifications.filter fun n => n.1.index == index).map fun (o, y) => (o.t, y, o.increasing)

/-- A journal, and that of a run with so many handlers at new places. -/
structure Journal.Moved (place : Nat → Nat) (count : Nat) (j j' : Journal Rat) : Prop where
  /-- The accepted pieces are the same, with the same flags. -/
  pieces : j'.pieces = j.pieces
  /-- Events are located in the same windows. -/
  windows : j'.groups.map Prod.fst = j.groups.map Prod.fst
  /-- The notifications come group by group, and differ in the order inside the groups only. -/
  rounds : ∃ rounds rounds', List.Forall₂ (RoundMoved place) rounds rounds' ∧
    j.notifications = rounds.flatten ∧ j.groups.map Prod.snd = rounds.map (List.map Prod.fst) ∧
    j'.notifications = rounds'.flatten ∧ j'.groups.map Prod.snd = rounds'.map (List.map Prod.fst)
  /-- Every handler hears the same. -/
  heard : ∀ i < count, j'.heard (place i) = j.heard i

theorem filter_moved {round round' : List (Occurrence Rat × State Rat)} (moved : RoundMoved place round round')
    (apart : ∀ i < count, ∀ j < count, place i = place j → i = j) (known : ∀ n ∈ round, n.1.index < count) {i : Nat}
    (bound : i < count) :
    (round'.filter fun n => n.1.index == place i) =
      (round.filter fun n => n.1.index == i).map fun (o, y) => (o.placed place, y) := by
  have same : (round.filter fun n => place n.1.index == place i) = round.filter fun n => n.1.index == i := by
    apply List.filter_congr
    intro n mem
    rw [Bool.eq_iff_iff, beq_iff_eq, beq_iff_eq]
    exact ⟨apart _ (known n mem) i bound, congrArg place⟩
  have perm := moved.1.filter fun n => n.1.index == place i
  rw [List.filter_map] at perm
  change (round'.filter _).Perm ((round.filter fun n => place n.1.index == place i).map _) at perm
  rw [same] at perm
  -- At most one notification of a group is told to a handler.
  have few : (round'.filter fun n => n.1.index == place i).Pairwise fun _ _ => False := by
    apply (moved.2.sublist List.filter_sublist).imp_of_mem
    intro n n' mem mem' less
    have own := (List.mem_filter.mp mem).2
    have own' := (List.mem_filter.mp mem').2
    simp only [beq_iff_eq] at own own'
    omega
  generalize (round'.filter fun n => n.1.index == place i) = l at perm few
  match l, few with
  | [], _ => exact (List.nil_perm.mp perm).symm
  | [n], _ => exact (List.singleton_perm.mp perm)
  | n :: n' :: _, few => exact (List.pairwise_cons.mp few).1 n' List.mem_cons_self |>.elim

namespace Journal

variable {j j' k k' : Journal Rat}

theorem Moved.append (first : j.Moved place count j') (second : k.Moved place count k') :
    Moved place count (j ++ k) (j' ++ k') := by
  obtain ⟨rounds, rounds', moved, told, located, told', located'⟩ := first.rounds
  obtain ⟨more, more', moved₂, told₂, located₂, told₂', located₂'⟩ := second.rounds
  have notifications : ∀ l l' : Journal Rat, Journal.notifications (l ++ l') = l.notifications ++ l'.notifications :=
    fun l l' => List.filterMap_append
  constructor
  · rw [pieces_append, pieces_append, first.pieces, second.pieces]
  · rw [groups_append, groups_append, List.map_append, List.map_append, first.windows, second.windows]
  · refine ⟨rounds ++ more, rounds' ++ more', List.rel_append moved moved₂, ?_⟩
    simp [notifications, groups_append, told, told₂, told', told₂', located, located₂, located', located₂']
  · intro i bound
    have one := first.heard i bound
    have two := second.heard i bound
    simp only [Journal.heard, notifications, List.filter_append, List.map_append] at one two ⊢
    rw [one, two]

/-- What a run does besides locating events and telling handlers of them is the same. -/
theorem Moved.plain {e : Entry Rat} (silent : e.notification? = none) (other : e.group? = none) :
    Moved place count [e] [e] := by
  have untold : Journal.notifications [e] = [] := by simp [notifications, silent]
  have ungrouped : Journal.groups [e] = [] := by simp [groups, other]
  exact ⟨rfl, rfl, ⟨[], [], .nil, untold, by rw [ungrouped]; rfl, untold, by rw [ungrouped]; rfl⟩,
    fun i _ => by simp [Journal.heard, untold]⟩

/-- The part of a journal that is about one group of events. -/
structure About (window : Window Rat) (round : List (Occurrence Rat × State Rat)) (k : Journal Rat) : Prop where
  pieces : k.pieces = []
  groups : k.groups = [(window, round.map Prod.fst)]
  notifications : k.notifications = round

theorem Moved.about {window : Window Rat} {round round' : List (Occurrence Rat × State Rat)}
    (about : k.About window round) (about' : k'.About window round') (moved : RoundMoved place round round')
    (apart : ∀ i < count, ∀ j < count, place i = place j → i = j) (known : ∀ n ∈ round, n.1.index < count) :
    k.Moved place count k' := by
  constructor
  · rw [about.pieces, about'.pieces]
  · rw [about.groups, about'.groups]
    rfl
  · exact ⟨[round], [round'], .cons moved .nil, by simp [about.notifications], by simp [about.groups],
      by simp [about'.notifications], by simp [about'.groups]⟩
  · intro i bound
    rw [Journal.heard, Journal.heard, about.notifications, about'.notifications, filter_moved moved apart known bound,
      List.map_map]
    rfl

end Journal

/-- A session, and the session of the run with the handlers at their new places. -/
structure Session.Moved (place : Nat → Nat) (count : Nat) (τ : Rat) (s s' : Session ω Rat) : Prop where
  tally : s'.tally = s.tally
  monitor : s.monitor.Placed place count τ s'.monitor
  observers : s'.observers = s.observers
  accepted : s'.accepted = s.accepted
  journal : s.journal.Moved place count s'.journal

namespace Session

variable {s s' : Session ω Rat}

theorem moved_onTally (x : Effect (Tally ω) Rat β) : (onTally x).Carries (Session.Moved place count τ) := by
  intro s s' b t together ran
  obtain ⟨tally, counted, rfl⟩ := onTally_ok.mp ran
  rw [← together.tally] at counted
  exact ⟨_, onTally_ok.mpr ⟨tally, counted, rfl⟩, { together with tally := rfl }⟩

theorem moved_onObservers (x : Effect (List (Observer ω Rat) × ω) Rat β) :
    (onObservers x).Carries (Session.Moved place count τ) := by
  intro s s' b t together ran
  obtain ⟨os, w, heard, rfl⟩ := onObservers_ok.mp ran
  rw [← together.tally, ← together.observers] at heard
  exact ⟨_, onObservers_ok.mpr ⟨os, w, heard, rfl⟩, { together with
    tally := by rw [together.tally], observers := rfl }⟩

theorem moved_note {e : Entry Rat} (silent : e.notification? = none) (other : e.group? = none) :
    (note e : Effect (Session ω Rat) Rat Unit).Carries (Session.Moved place count τ) := by
  intro s s' b t together ran
  cases ran
  refine ⟨_, rfl, { together with journal := ?_ }⟩
  have grown := together.journal.append (.plain silent other)
  rwa [← journal_noted, ← journal_noted] at grown

/-- What is done to the monitor carries over if it does for monitors. -/
theorem moved_onMonitor {x : Effect (Monitor ω Rat × ω) Rat Unit}
    (placed : ∀ m m' m₁ v v', m.Placed place count τ m' → x.runFrom (m, v) = (.ok (), m₁, v') →
      v' = v ∧ ∃ m₁', x.runFrom (m', v) = (.ok (), m₁', v) ∧ m₁.Placed place count τ m₁') :
    (onMonitor x).Carries (Session.Moved place count τ) := by
  intro s s' b t together ran
  obtain ⟨m, w, watched, rfl⟩ := onMonitor_ok.mp ran
  obtain ⟨rfl, m', watched', moved⟩ := placed _ _ _ _ _ together.monitor watched
  rw [← together.tally] at watched'
  exact ⟨_, onMonitor_ok.mpr ⟨m', _, watched', rfl⟩, { together with
    tally := together.tally
    monitor := moved }⟩

theorem moved_commit (t : Rat) (y : State Rat) :
    (onMonitor (Monitor.commit t y) : Effect (Session ω Rat) Rat Unit).Carries (Session.Moved place count τ) :=
  moved_onMonitor fun _ _ _ _ _ => Monitor.commit_placed

variable [Spacing Rat]

theorem moved_deliver (piece : Window Rat) (last : Bool) :
    (deliver piece last : Effect (Session ω Rat) Rat Unit).Carries (Session.Moved place count τ) := by
  apply carries_bind
  · intro s s' b t together ran
    cases ran
    exact ⟨_, rfl, { together with accepted := congrArg (· + 1) together.accepted }⟩
  · exact fun _ => carries_bind (moved_note rfl rfl) fun _ => moved_onObservers _

end Session

namespace Course

variable [Spacing Rat] {course : Course ω Rat}

omit [Spacing Rat] in
theorem moved_restart (t : Rat) (y : State Rat) (atEnd : Bool) :
    (restart t y atEnd : Effect (Session ω Rat) Rat _).Carries (Session.Moved place count τ) := by
  apply carries_bind (Session.moved_commit t y)
  intro _
  split
  · exact carries_pure _
  · exact carries_pure _

omit [Spacing Rat] in
theorem moved_settling (leg : Leg Rat) (window : Window Rat) :
    (settling leg window : Handover ω Rat).rest.Carries (Session.Moved place count τ) := by
  apply carries_bind (Session.moved_commit _ _)
  intro _
  split
  · exact carries_pure _
  · exact carries_pure _

/-- What follows mild answers carries over. -/
theorem moved_resume (course : Course ω Rat) (leg : Leg Rat) (window : Window Rat) (t : Rat) (y : State Rat)
    (atEnd : Bool) (m : Monitor ω Rat) (w : ω) (group : List (Occurrence Rat)) :
    (course.resume leg window t y atEnd (Verdict.mild m w t y group .carryOn)).Carries
      (Session.Moved place count τ) := by
  rw [Verdict.mild]
  split
  · exact moved_restart t y atEnd
  · apply carries_bind (Session.moved_commit t y)
    intro _
    split
    · split
      · exact carries_pure _
      · exact carries_pure _
    · exact carries_bind (carries_lift _) fun _ => carries_pure _

end Course

/-- The members of a group at their new places, in the order of these. -/
structure Regrouped (place : Nat → Nat) (count : Nat) (group group' : List (Occurrence Rat)) : Prop where
  perm : group'.Perm (group.map (Occurrence.placed place))
  ordered : group'.Pairwise fun o o' => o.index < o'.index
  known : ∀ o ∈ group, o.index < count
  times : ∀ o ∈ group, ∀ o' ∈ group, o'.t = o.t

section

variable {m m' : Monitor ω Rat} {s s' s₁ : Session ω Rat} {w : ω} {t : Rat} {y : State Rat} {o : Occurrence Rat}
  {group group' : List (Occurrence Rat)} {window : Window Rat}

theorem Regrouped.origin (regrouped : Regrouped place count group group') {o' : Occurrence Rat} (mem : o' ∈ group') :
    ∃ o ∈ group, o.placed place = o' := List.mem_map.mp (regrouped.perm.mem_iff.mp mem)

theorem Monitor.Placed.reply (placed : m.Placed place count τ m') (known : o.index < count) :
    m'.reply w t y (o.placed place) = m.reply w t y o := by
  have same := placed.channels.same o.index (placed.length.symm ▸ known)
  rw [Monitor.reply, Monitor.reply, Occurrence.placed]
  dsimp only
  rw [same]

theorem Monitor.Placed.dealt (placed : m.Placed place count τ m') (regrouped : Regrouped place count group group') :
    (m.dealt t group).Placed place count τ (m'.dealt t group') := by
  have inside : ∀ o ∈ group, o.index < m.channels.length := fun o mem => placed.length.symm ▸ regrouped.known o mem
  have own : ∀ i < m.channels.length, place i ∈ group'.map Occurrence.index ↔ i ∈ group.map Occurrence.index := by
    intro i bound
    constructor
    · intro mem
      obtain ⟨o', mem', same⟩ := List.mem_map.mp mem
      obtain ⟨o, listed, rfl⟩ := regrouped.origin mem'
      exact List.mem_map.mpr ⟨o, listed, placed.channels.apart _ (inside o listed) i bound same⟩
    · intro mem
      obtain ⟨o, listed, rfl⟩ := List.mem_map.mp mem
      exact List.mem_map.mpr ⟨o.placed place, regrouped.perm.mem_iff.mpr (List.mem_map_of_mem listed), rfl⟩
  constructor
  · apply placed.channels.mapIdx
    intro i bound
    simp only [own i bound]
  · simpa [Monitor.dealt] using placed.length
  · exact placed.forward
  · exact Monitor.steady_dealt placed.steady
  · intro c mem
    obtain ⟨i, at_⟩ := List.getElem?_of_mem mem
    rw [Monitor.channels_dealt, Option.map_eq_some_iff] at at_
    obtain ⟨d, at_, rfl⟩ := at_
    have same := placed.convergence d (List.mem_of_getElem? at_)
    split
    · exact same
    · exact same

/-- The handlers decide the same at their new places. -/
theorem Verdict.mild_moved (placed : m.Placed place count τ m') (regrouped : Regrouped place count group group')
    (verdict : Verdict ω Rat) : Verdict.mild m' w t y group' verdict = Verdict.mild m w t y group verdict := by
  have same : (∃ o ∈ group', m'.reply w t y o = some .resetDerivatives) ↔
      ∃ o ∈ group, m.reply w t y o = some .resetDerivatives := by
    constructor
    · rintro ⟨o', mem, replied⟩
      obtain ⟨o, listed, rfl⟩ := regrouped.origin mem
      rw [placed.reply (regrouped.known o listed)] at replied
      exact ⟨o, listed, replied⟩
    · rintro ⟨o, listed, replied⟩
      rw [← placed.reply (regrouped.known o listed)] at replied
      exact ⟨_, regrouped.perm.mem_iff.mpr (List.mem_map_of_mem listed), replied⟩
  simp only [mild, same]

/-- The entries about a group that has been located and consulted. -/
theorem Journal.about_consulting (m : Monitor ω Rat) (w : ω) (t : Rat) (y : State Rat) (window : Window Rat)
    (group : List (Occurrence Rat)) :
    Journal.About window (group.map fun o => (o, y)) (.located window group :: consulting m w t y group) := by
  have whole : ∀ rest : List (Occurrence Rat), (consulting m w t y rest).pieces = [] ∧
      (consulting m w t y rest).groups = [] ∧ (consulting m w t y rest).notifications = rest.map fun o => (o, y) := by
    intro rest
    induction rest with
    | nil => exact ⟨rfl, rfl, rfl⟩
    | cons o rest ih =>
      obtain ⟨pieces, groups, notifications⟩ := ih
      exact ⟨pieces, groups, congrArg ((o, y) :: ·) notifications⟩
  obtain ⟨pieces, groups, notifications⟩ := whole group
  refine ⟨pieces, ?_, notifications⟩
  rw [List.map_map]
  exact congrArg₂ (fun first rest => (window, first) :: rest) (List.map_id group).symm groups

/-- After a group has been located and consulted, the journals differ in the order of its members only. -/
theorem Session.Moved.consulted (together : s.Moved place count τ s') (regrouped : Regrouped place count group group') :
    ((s.noted (.located window group)).consulted t y group).Moved place count τ
      ((s'.noted (.located window group')).consulted t y group') where
  tally := together.tally
  monitor := together.monitor.dealt regrouped
  observers := together.observers
  accepted := together.accepted
  journal := by
    have moved : RoundMoved place (group.map fun o => (o, y)) (group'.map fun o => (o, y)) := by
      constructor
      · have paired := regrouped.perm.map fun o => (o, y)
        rwa [List.map_map] at paired ⊢
      · exact List.pairwise_map.mpr regrouped.ordered
    have known : ∀ n ∈ group.map fun o => (o, y), n.1.index < count := by
      intro n mem
      obtain ⟨o, listed, rfl⟩ := List.mem_map.mp mem
      exact regrouped.known o listed
    have block := Journal.Moved.about (Journal.about_consulting s.monitor s.tally.world t y window group)
      (Journal.about_consulting s'.monitor s'.tally.world t y window group') moved
      (fun i first j second => together.monitor.channels.apart i (together.monitor.length.symm ▸ first) j
        (together.monitor.length.symm ▸ second)) known
    have grown := together.journal.append block
    rw [journal_consulted, journal_consulted, journal_noted, journal_noted, List.append_assoc, List.append_assoc]
    exact grown

end

namespace Course

variable [Spacing Rat] {course : Course ω Rat} {s s' s₁ : Session ω Rat}

/-- A scan finds the same group at the new places, and leaves the sessions as they were to each other. -/
theorem scan_moved (together : s.Moved place count τ s') {window : Window Rat} {group : List (Occurrence Rat)}
    (ran : (scan window).runFrom s = (.ok group, s₁)) :
    ∃ group' s₁', (scan window).runFrom s' = (.ok group', s₁') ∧ s₁.Moved place count τ s₁' ∧
      Regrouped place count group group' := by
  rw [scan, runFrom_bind, runFrom_get] at ran
  dsimp only at ran
  have alike : s'.monitor.channels.isEmpty = s.monitor.channels.isEmpty := by
    rw [Bool.eq_iff_iff, List.isEmpty_iff_length_eq_zero, List.isEmpty_iff_length_eq_zero,
      together.monitor.channels.length]
  rw [scan]
  simp only [runFrom_bind, runFrom_get, alike]
  by_cases empty : s.monitor.channels.isEmpty = true
  · rw [if_pos empty] at ran ⊢
    cases ran
    exact ⟨[], s', rfl, together, .nil, .nil, by simp, by simp⟩
  · rw [if_neg empty] at ran ⊢
    obtain ⟨m, w, scanned, rfl⟩ := Session.onMonitor_ok.mp ran
    obtain ⟨rfl, group', m', scanned', moved, perm, found, found'⟩ := Monitor.scan_placed together.monitor scanned
    rw [← together.tally] at scanned'
    refine ⟨group', _, Session.onMonitor_ok.mpr ⟨m', _, scanned', rfl⟩, { together with
      tally := together.tally
      monitor := moved }, perm, found'.ordered, ?_, fun o mem o' mem' => (found.shared o mem o' mem').1⟩
    intro o mem
    obtain ⟨c, at_, _⟩ := found.reported o mem
    exact together.monitor.length ▸ (List.getElem?_eq_some_iff.mp at_).1

omit [Spacing Rat] in
/-- A group that answers mildly decides the same at the new places, in the order of these. -/
theorem consult_moved (together : s.Moved place count τ s') {group group' : List (Occurrence Rat)} {t : Rat} {y : State Rat}
    (regrouped : Regrouped place count group group') (times : ∀ o ∈ group, o.t = t) {window : Window Rat}
    {verdict : Verdict ω Rat}
    (ran : (consult t y group .carryOn).runFrom (s.noted (.located window group)) = (.ok verdict, s₁))
    (mild : ∀ index action, .answered index action ∈ s₁.latestEntries → action.Mild) :
    verdict = .mild s.monitor s.tally.world t y group .carryOn ∧ ∃ s₁',
      (consult t y group' .carryOn).runFrom (s'.noted (.located window group')) = (.ok verdict, s₁') ∧
        s₁.Moved place count τ s₁' := by
  have steady : ∀ c ∈ (s.noted (.located window group)).monitor.channels, c.handler.Steady := together.monitor.steady
  have replied := replied_of_consult steady times ran mild
  rw [runFrom_consult steady times replied] at ran
  cases ran
  have steady' : ∀ c ∈ (s'.noted (.located window group')).monitor.channels, c.handler.Steady :=
    fun c mem => together.monitor.steady c (together.monitor.channels.mem mem)
  have times' : ∀ o ∈ group', o.t = t := by
    intro o' mem
    obtain ⟨o, listed, rfl⟩ := regrouped.origin mem
    exact times o listed
  have replied' : ∀ o ∈ group', ∃ action,
      s'.monitor.reply s'.tally.world t y o = some action ∧ action.Mild := by
    intro o' mem
    obtain ⟨o, listed, rfl⟩ := regrouped.origin mem
    rw [together.monitor.reply (regrouped.known o listed), together.tally]
    exact replied o listed
  have same : Verdict.mild s'.monitor s'.tally.world t y group' .carryOn =
      Verdict.mild s.monitor s.tally.world t y group .carryOn := by
    rw [Verdict.mild_moved together.monitor regrouped, together.tally]
  refine ⟨rfl, _, ?_, together.consulted regrouped⟩
  rw [runFrom_consult steady' times' replied']
  exact congrArg (fun verdict => (Except.ok verdict, _)) same

/-- The way to the handover of the piece before a group of events carries over, and so does what follows. -/
theorem reacting_moved (together : s.Moved place count τ s') {group group' : List (Occurrence Rat)} {t : Rat}
    (regrouped : Regrouped place count group group') (times : ∀ o ∈ group, o.t = t) {leg : Leg Rat}
    {window : Window Rat} {h : Handover ω Rat}
    (ran : (course.reacting leg window t group).runFrom (s.noted (.located window group)) = (.ok h, s₁))
    (mild : ∀ index action, .answered index action ∈ s₁.latestEntries → action.Mild) :
    ∃ s₁', (course.reacting leg window t group').runFrom (s'.noted (.located window group')) = (.ok h, s₁') ∧
      s₁.Moved place count τ s₁' ∧ h.rest.Carries (Session.Moved place count τ) := by
  obtain ⟨piece, _, lifted, ran⟩ := runFrom_bind_ok.mp ran
  obtain ⟨cut, rfl⟩ := runFrom_lift_iff.mp lifted
  obtain ⟨verdict, s₂, consulted, ran⟩ := runFrom_bind_ok.mp ran
  cases ran
  obtain ⟨rfl, s₁', other, together⟩ := consult_moved together regrouped times consulted mild
  refine ⟨s₁', ?_, together, moved_resume course leg window t piece.yStop _ _ _ _⟩
  apply runFrom_bind_ok.mpr
  exact ⟨piece, _, runFrom_lift_iff.mpr ⟨cut, rfl⟩, runFrom_bind_ok.mpr ⟨_, _, other, rfl⟩⟩

theorem survey_moved (together : s.Moved place count τ s') {leg : Leg Rat} {window : Window Rat} {h : Handover ω Rat}
    (ran : (course.survey leg window).runFrom s = (.ok h, s₁))
    (mild : ∀ index action, .answered index action ∈ s₁.latestEntries → action.Mild) :
    ∃ s₁', (course.survey leg window).runFrom s' = (.ok h, s₁') ∧ s₁.Moved place count τ s₁' ∧
      h.rest.Carries (Session.Moved place count τ) := by
  obtain ⟨group, s₂, scanned, ran⟩ := runFrom_bind_ok.mp ran
  obtain ⟨group', s₂', scanned', together, regrouped⟩ := scan_moved together scanned
  cases group with
  | nil =>
    cases ran
    obtain rfl := List.perm_nil.mp regrouped.perm
    exact ⟨s₂', runFrom_bind_ok.mpr ⟨_, _, scanned', rfl⟩, together, moved_settling leg window⟩
  | cons first rest =>
    cases group' with
    | nil => cases List.nil_perm.mp regrouped.perm
    | cons first' rest' =>
      obtain ⟨o, listed, same⟩ := regrouped.origin List.mem_cons_self
      have time : first'.t = first.t := same ▸ regrouped.times first List.mem_cons_self o listed
      have times : ∀ o ∈ first :: rest, o.t = first.t := regrouped.times first List.mem_cons_self
      rw [runFrom_bind, Session.runFrom_note] at ran
      obtain ⟨s₁', reached, together, carries⟩ := reacting_moved together regrouped times ran mild
      refine ⟨s₁', runFrom_bind_ok.mpr ⟨_, _, scanned', ?_⟩, together, carries⟩
      dsimp only
      rw [runFrom_bind, Session.runFrom_note, time]
      exact reached

/-- The way to the handover of a piece carries over, and so does what follows the handover. -/
theorem approach_moved (together : s.Moved place count τ s') {phase : Phase Rat} {h : Handover ω Rat}
    (ran : (course.approach phase).runFrom s = (.ok h, s₁))
    (mild : ∀ index action, .answered index action ∈ s₁.latestEntries → action.Mild) :
    ∃ s₁', (course.approach phase).runFrom s' = (.ok h, s₁') ∧ s₁.Moved place count τ s₁' ∧
      h.rest.Carries (Session.Moved place count τ) := by
  cases phase with
  | scanning leg window => exact survey_moved together ran mild
  | stepping t y yp =>
    obtain ⟨leg, s₂, taken, ran⟩ := runFrom_bind_ok.mp ran
    have carries : (course.nextLeg t y yp).Carries (Session.Moved place count τ) :=
      carries_bind (Session.moved_onTally _) fun _ => carries_pure _
    obtain ⟨s₂', taken', together⟩ := carries s s' leg s₂ together taken
    obtain ⟨s₁', surveyed, together, rest⟩ := survey_moved together ran mild
    exact ⟨s₁', runFrom_bind_ok.mpr ⟨leg, s₂', taken', surveyed⟩, together, rest⟩

/-- What follows the handover of a piece carries over, and so does the handover. -/
theorem moved_perform {h : Handover ω Rat} (rest : h.rest.Carries (Session.Moved place count τ)) :
    h.perform.Carries (Session.Moved place count τ) :=
  carries_bind (Session.moved_deliver h.piece h.last) fun _ => rest

/-- A loop that returns after mild answers returns with the handlers at their new places. -/
theorem passes_moved (together : s.Moved place count τ s') {left : Nat} {phase : Phase Rat} (whole : phase.Whole)
    {r : Rat × State Rat} (ran : (course.passes left phase).runFrom s = (.ok r, s₁))
    (mild : ∀ index action, .answered index action ∈ s₁.latestEntries → action.Mild) :
    ∃ s₁', (course.passes left phase).runFrom s' = (.ok r, s₁') ∧ s₁.Moved place count τ s₁' := by
  induction left generalizing s s' phase with
  | zero => cases ran
  | succ left ih =>
    obtain ⟨h, s₂, progress, s₃, approached, fits, performed, ending⟩ := passes_ok whole ran
    obtain ⟨_, ⟨new, entries⟩, onward⟩ := fits.perform_ok performed
    have allowed : ¬ course.budget ≤ s₂.accepted := by
      intro spent
      rw [runFrom_passes left approached, if_pos spent] at ran
      cases ran
    -- The answers of this pass are among those of the whole run.
    obtain ⟨_, _, _, later, entries', _⟩ := after_of_ending (fun next goes => (onward next goes).2.2) ending
    have kept : s₁.latestEntries = later ++ new ++ .accepted h.piece h.last :: s₂.latestEntries := by
      rw [entries', entries, List.append_assoc]
    obtain ⟨s₂', approached', together, rest⟩ := approach_moved together approached fun index action mem =>
      mild index action (kept ▸ List.mem_append_right _ (List.mem_cons_of_mem _ mem))
    obtain ⟨s₃', performed', together'⟩ := moved_perform rest _ _ _ _ together performed
    have other := runFrom_passes left approached'
    rw [together.accepted, if_neg allowed, performed'] at other
    rcases ending with ⟨t, y, rfl, rfl, rfl⟩ | ⟨next, rfl, onto⟩
    · exact ⟨s₃', other, together'⟩
    · obtain ⟨s₁', returned, together⟩ := ih together' (onward next rfl).2.2 onto
      exact ⟨s₁', other.trans returned, together⟩

/-- A run that returns after mild answers returns with the handlers at their new places. -/
theorem run_moved (together : s.Moved place count τ s') {t0 : Rat} {y0 : State Rat} {r : Rat × State Rat}
    (ran : (course.run t0 y0).runFrom s = (.ok r, s₁))
    (mild : ∀ index action, .answered index action ∈ s₁.latestEntries → action.Mild) :
    ∃ s₁', (course.run t0 y0).runFrom s' = (.ok r, s₁') ∧ s₁.Moved place count τ s₁' := by
  simp only [run, runFrom_bind_ok] at ran
  obtain ⟨yp, _, called, _, _, sized, _, _, watched, _, _, told, rest⟩ := ran
  obtain ⟨_, called', together⟩ := Session.moved_onTally _ _ _ _ _ together called
  obtain ⟨_, sized', together⟩ := carries_lift _ _ _ _ _ together sized
  obtain ⟨_, watched', together⟩ :=
    Session.moved_onMonitor (fun _ _ _ _ _ => Monitor.init_placed) _ _ _ _ together watched
  obtain ⟨_, told', together⟩ := Session.moved_onObservers _ _ _ _ _ together told
  have whole : (Phase.stepping t0 y0 (some yp)).Whole := trivial
  obtain ⟨s₁', returned, together⟩ := passes_moved together whole rest mild
  simp only [run, runFrom_bind_ok]
  exact ⟨s₁', ⟨yp, _, called', _, _, sized', _, _, watched', _, _, told', returned⟩, together⟩

end Course

namespace Engine

variable {e e' : Engine ω Rat} {equation : Equation ω Rat} {t0 target t : Rat} {y0 y : State Rat} {w w' : ω}

/-- The engine with its handlers registered in another order, given by their indices. -/
def reordered (e : Engine ω Rat) (order : List Nat) : Engine ω Rat :=
  { e with watches := order.filterMap (e.watches[·]?) }

/-- The monitors of the runs of an engine, and of those with its handlers registered in another order. -/
theorem create_placed {order : List Nat} (listed : order.Perm (List.range e.watches.length))
    (steady : ∀ watch ∈ e.watches, watch.1.Steady) (alike : ∀ watch ∈ e.watches, watch.2.convergence = τ) :
    (Monitor.create e.watches).Placed order.idxOf e.watches.length τ (Monitor.create (e.reordered order).watches) := by
  constructor
  · exact (Placed.of_order listed).map fun watch => Channel.create watch.1 watch.2
  · simp [Monitor.create]
  · rfl
  · intro c mem
    obtain ⟨watch, registered, rfl⟩ := List.mem_map.mp mem
    exact steady watch registered
  · intro c mem
    obtain ⟨watch, registered, rfl⟩ := List.mem_map.mp mem
    exact alike watch registered

variable [Spacing Rat]

/-- A run that returns, with steady handlers of one tolerance all of whose answers are mild, is the same if the
handlers are registered in another order: it returns the same, from the same steps, with the same pieces, and every
handler hears the same at its new place. Only the order of the notifications in a group of events is that of the new
places. -/
theorem integrate_reordered {order : List Nat} (listed : order.Perm (List.range e.watches.length))
    (steady : ∀ watch ∈ e.watches, watch.1.Steady) (alike : ∀ watch ∈ e.watches, watch.2.convergence = τ)
    (ran : (integrate equation t0 y0 target).runFrom (e, w) = (.ok (t, y), e', w'))
    (mild : ∀ index action, .answered index action ∈ e'.journal → action.Mild) :
    ∃ journal, e'.journal.Moved order.idxOf e.watches.length journal ∧
      (integrate equation t0 y0 target).runFrom (e.reordered order, w) =
        (.ok (t, y), { e'.reordered order with journal := journal }, w') := by
  obtain ⟨course, s₁, prepared, finished, rfl, rfl⟩ := integrate_ok ran
  have prepared' : (e.reordered order).prepare equation t0 y0 target = .ok course := prepared
  have account := runFrom_integrate prepared' w
  have begun : (Session.start w (Monitor.create e.watches) e.observers).Moved order.idxOf e.watches.length τ
      (Session.start w (Monitor.create (e.reordered order).watches) (e.reordered order).observers) :=
    ⟨rfl, create_placed listed steady alike, rfl, rfl, rfl, rfl, ⟨[], [], .nil, rfl, rfl, rfl, rfl⟩, fun _ _ => rfl⟩
  obtain ⟨s₁', returned, together⟩ := Course.run_moved begun finished fun index action mem =>
    mild index action (List.mem_reverse.mpr mem)
  refine ⟨s₁'.journal, together.journal, ?_⟩
  rw [account, returned]
  dsimp only [told, reordered]
  rw [together.observers, together.tally, together.accepted]

omit [Spacing Rat] in
/-- Two timers that go off together, registered in either order. -/
theorem timers_reordered :
    letI := Spacing.gapless
    let settings : Settings Rat := ⟨none, 1 / 100, 100, none⟩
    let timers := timed 1 [(.timer (1 / 2) .carryOn (.ofList [0]), settings),
      (.timer (1 / 2) .resetDerivatives (.ofList [0]), settings)]
    let run := (integrate .steady 0 (.ofList [0]) 1).runFrom (timers, ())
    let other := (integrate .steady 0 (.ofList [0]) 1).runFrom (timers.reordered [1, 0], ())
    run.1.isOk = true ∧ other.1 = run.1 ∧ run.2.1.journal.Moved [1, 0].idxOf 2 other.2.1.journal ∧
      run.2.1.journal.heard 0 ≠ [] ∧ other.2.1.journal ≠ run.2.1.journal := by
  let := Spacing.gapless
  intro settings timers run other
  have steady : ∀ watch ∈ timers.watches, watch.1.Steady := by
    rintro watch (_ | ⟨_, _ | ⟨_, ⟨⟩⟩⟩)
    · exact ⟨fun _ _ _ => steady_pure (), fun _ _ => steady_pure _, fun _ _ _ => steady_pure _⟩
    · exact ⟨fun _ _ _ => steady_pure (), fun _ _ => steady_pure _, fun _ _ _ => steady_pure _⟩
  have alike : ∀ watch ∈ timers.watches, watch.2.convergence = 1 / 100 := by
    rintro watch (_ | ⟨_, _ | ⟨_, ⟨⟩⟩⟩)
    · rfl
    · rfl
  have answers : ∀ entry ∈ run.2.1.journal, (match entry with
      | .answered _ action => decide action.Mild
      | _ => true) = true := by decide +kernel
  have returned : run.1.isOk = true := by decide +kernel
  have heard : run.2.1.journal.heard 0 ≠ [] := by decide +kernel
  have differ : other.2.1.journal ≠ run.2.1.journal := by decide +kernel
  cases outcome : run.1 with
  | error e =>
    rw [outcome] at returned
    cases returned
  | ok p =>
    have ran : run = (.ok (p.1, p.2), run.2.1, run.2.2) := Prod.ext outcome rfl
    have listed : [1, 0].Perm (List.range timers.watches.length) := .swap 0 1 []
    obtain ⟨journal, moved, same⟩ := integrate_reordered listed steady alike ran
      fun index action mem => of_decide_eq_true (answers _ mem)
    have same : other = _ := same
    rw [same] at differ ⊢
    exact ⟨rfl, rfl, moved, heard, differ⟩

end Engine

end Trajectory
