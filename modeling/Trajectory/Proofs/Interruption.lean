import Mathlib.Tactic
import Trajectory.Proofs.Reaction
import Trajectory.Proofs.Timer

/-!
Which members of a group hear of their event.

A group is asked in the order of the indices, and a member that replaces the state or stops the run
cuts the others off. A member that has been cut off by a replacement never hears of its root:
stepping goes on from the event, and every root found afterwards lies strictly behind it.
`integrate_group` says exactly which members are heard; `stop_passed_over` is a run in which a
member that would stop it is passed over.
-/

namespace Trajectory

open Session

variable {ω : Type}

/-- The questions and answers about a group, which come before the piece up to the event is
accepted. -/
def Journal.reactions (j : Journal Rat) : Journal Rat := j.takeWhile fun e => e.piece?.isNone

/-- A member of a group before another one answers with an action, according to what the journal
says after the group. -/
def Occurrence.Preceded (m : Occurrence Rat) (group : List (Occurrence Rat)) (after : Journal Rat) (action : Action) :
    Prop :=
  ∃ l ∈ group, l.index < m.index ∧ .answered l.index action ∈ after.reactions

/-- A handler that only ever stops the run. -/
def Handler.OnlyStops (handler : Handler ω Rat) : Prop :=
  ∀ t y increasing action, (handler.eventOccurred t y increasing).Returns action → action = .stop

namespace Consulted

variable {answers : Occurrence Rat → Action → Prop} {y z : State Rat} {members : List (Occurrence Rat)}
  {verdict decided : Verdict ω Rat} {entries : List (Entry Rat)} {m o : Occurrence Rat} {index : Nat} {action : Action}

/-- No piece is accepted while a group is asked. -/
theorem unaccepted (consulted : Consulted answers y members verdict entries decided) :
    ∀ e ∈ entries, e.piece?.isNone = true := by
  induction consulted with
  | nobody => exact fun _ mem => absurd mem List.not_mem_nil
  | heard _ _ _ ih => simpa [Entry.piece?] using ih
  | cutOff => simp [Entry.piece?]

/-- All members are asked at the same state. -/
theorem state_of_asked (consulted : Consulted answers y members verdict entries decided)
    (asked : .asked o z ∈ entries) : z = y := by
  induction consulted with
  | nobody => exact absurd asked List.not_mem_nil
  | heard _ _ _ ih =>
    simp only [List.mem_cons, Entry.asked.injEq, reduceCtorEq, false_or] at asked
    exact asked.elim And.right ih
  | cutOff =>
    simp only [List.mem_cons, Entry.asked.injEq, reduceCtorEq, List.not_mem_nil, or_false] at asked
    exact asked.2

/-- Only members are asked. -/
theorem asked_mem (consulted : Consulted answers y members verdict entries decided) (asked : .asked o z ∈ entries) :
    o ∈ members := by
  induction consulted with
  | nobody => exact absurd asked List.not_mem_nil
  | heard _ _ _ ih =>
    simp only [List.mem_cons, Entry.asked.injEq, reduceCtorEq, false_or] at asked
    rcases asked with ⟨rfl, _⟩ | later
    · exact List.mem_cons_self
    · exact List.mem_cons_of_mem _ (ih later)
  | cutOff =>
    simp only [List.mem_cons, Entry.asked.injEq, reduceCtorEq, List.not_mem_nil, or_false] at asked
    exact asked.1 ▸ List.mem_cons_self

/-- Only members answer. -/
theorem answered_mem (consulted : Consulted answers y members verdict entries decided)
    (answered : .answered index action ∈ entries) : ∃ o ∈ members, o.index = index := by
  induction consulted with
  | nobody => exact absurd answered List.not_mem_nil
  | @heard o _ _ _ _ _ _ _ _ ih =>
    simp only [List.mem_cons, Entry.answered.injEq, reduceCtorEq, false_or] at answered
    rcases answered with ⟨same, _⟩ | later
    · exact ⟨o, List.mem_cons_self, same.symm⟩
    · obtain ⟨o', mem, same⟩ := ih later
      exact ⟨o', List.mem_cons_of_mem _ mem, same⟩
  | @cutOff o =>
    simp only [List.mem_cons, Entry.answered.injEq, reduceCtorEq, List.not_mem_nil, or_false, false_or] at answered
    exact ⟨o, List.mem_cons_self, answered.1.symm⟩

/-- A member that interrupts has the last word. -/
theorem isStop_of_answered (consulted : Consulted answers y members verdict entries decided)
    (answered : .answered index action ∈ entries) (interrupts : action.interrupts = true) :
    decided.isStop = (action == .stop) := by
  induction consulted with
  | nobody => exact absurd answered List.not_mem_nil
  | heard _ goes _ ih =>
    simp only [List.mem_cons, Entry.answered.injEq, reduceCtorEq, false_or] at answered
    rcases answered with ⟨_, rfl⟩ | later
    · cases goes.symm.trans interrupts
    · exact ih later
  | cutOff _ _ final =>
    simp only [List.mem_cons, Entry.answered.injEq, reduceCtorEq, List.not_mem_nil, or_false, false_or] at answered
    exact answered.2 ▸ final

/-- Whoever is asked answers. -/
theorem answered_of_asked (consulted : Consulted answers y members verdict entries decided)
    (asked : .asked o z ∈ entries) : ∃ action, answers o action ∧ .answered o.index action ∈ entries := by
  induction consulted with
  | nobody => exact absurd asked List.not_mem_nil
  | @heard _ action _ _ _ _ answer _ _ ih =>
    simp only [List.mem_cons, Entry.asked.injEq, reduceCtorEq, false_or] at asked
    rcases asked with ⟨rfl, _⟩ | later
    · exact ⟨action, answer, by simp⟩
    · obtain ⟨action', answer', answered⟩ := ih later
      exact ⟨action', answer', by simp [answered]⟩
  | @cutOff _ action _ _ _ answer =>
    simp only [List.mem_cons, Entry.asked.injEq, reduceCtorEq, List.not_mem_nil, or_false] at asked
    obtain ⟨rfl, _⟩ := asked
    exact ⟨action, answer, by simp⟩

/-- A member is asked, or one before it has interrupted. -/
theorem asked_or_interrupted (consulted : Consulted answers y members verdict entries decided)
    (ordered : members.Pairwise fun o o' => o.index < o'.index) (member : m ∈ members) :
    .asked m y ∈ entries ∨
      ∃ l ∈ members, l.index < m.index ∧ ∃ action, action.interrupts = true ∧ .answered l.index action ∈ entries := by
  induction consulted with
  | nobody => exact absurd member List.not_mem_nil
  | heard _ _ _ ih =>
    obtain ⟨_, ordered⟩ := List.pairwise_cons.mp ordered
    rcases List.mem_cons.mp member with rfl | member
    · exact Or.inl List.mem_cons_self
    · rcases ih ordered member with asked | ⟨l, mem, lower, action, interrupts, answered⟩
      · exact Or.inl (by simp [asked])
      · exact Or.inr ⟨l, List.mem_cons_of_mem _ mem, lower, action, interrupts, by simp [answered]⟩
  | @cutOff o action _ _ _ _ interrupts =>
    obtain ⟨before, _⟩ := List.pairwise_cons.mp ordered
    rcases List.mem_cons.mp member with rfl | member
    · exact Or.inl List.mem_cons_self
    · exact Or.inr ⟨o, List.mem_cons_self, before m member, action, interrupts, by simp⟩

/-- Nobody before a member that is asked has interrupted. -/
theorem not_interrupted_of_asked (consulted : Consulted answers y members verdict entries decided)
    (ordered : members.Pairwise fun o o' => o.index < o'.index) (asked : .asked m z ∈ entries)
    (lower : index < m.index) (interrupts : action.interrupts = true) : .answered index action ∉ entries := by
  intro answered
  induction consulted with
  | nobody => exact absurd asked List.not_mem_nil
  | heard _ goes others ih =>
    obtain ⟨before, ordered⟩ := List.pairwise_cons.mp ordered
    simp only [List.mem_cons, Entry.answered.injEq, Entry.asked.injEq, reduceCtorEq, false_or] at answered asked
    rcases answered with ⟨_, rfl⟩ | answered
    · cases goes.symm.trans interrupts
    rcases asked with ⟨rfl, _⟩ | asked
    · obtain ⟨o, mem, rfl⟩ := others.answered_mem answered
      exact absurd (before o mem) (Nat.not_lt.mpr lower.le)
    · exact ih ordered asked answered
  | cutOff =>
    simp only [List.mem_cons, Entry.answered.injEq, Entry.asked.injEq, reduceCtorEq, List.not_mem_nil, or_false,
      false_or] at answered asked
    rw [answered.1, asked.1] at lower
    exact absurd lower (Nat.lt_irrefl _)

/-- A stop and a replacement cannot both have the last word. -/
theorem not_replaced_of_stopped (consulted : Consulted answers y members verdict entries decided) {index' : Nat}
    (stopped : .answered index .stop ∈ entries) : .answered index' .resetState ∉ entries := by
  intro replaced
  have stop := consulted.isStop_of_answered stopped rfl
  have reset := consulted.isStop_of_answered replaced rfl
  cases stop.symm.trans reset

variable {after : Journal Rat}

/-- A member is asked, or one before it stops the run, if and only if none before it replaces the
state. -/
theorem asked_iff (consulted : Consulted answers y members verdict after.reactions decided)
    (ordered : members.Pairwise fun o o' => o.index < o'.index) (member : m ∈ members) :
    .asked m y ∈ after.reactions ∨ m.Preceded members after .stop ↔ ¬ m.Preceded members after .resetState := by
  constructor
  · rintro (asked | ⟨_, _, _, stopped⟩) ⟨l, _, lower, replaced⟩
    · exact consulted.not_interrupted_of_asked ordered asked lower rfl replaced
    · exact consulted.not_replaced_of_stopped stopped replaced
  · intro unreplaced
    refine (consulted.asked_or_interrupted ordered member).imp_right ?_
    rintro ⟨l, mem, lower, action, interrupts, answered⟩
    cases action with
    | carryOn | resetDerivatives => cases interrupts
    | resetState => exact absurd ⟨l, mem, lower, answered⟩ unreplaced
    | stop => exact ⟨l, mem, lower, answered⟩

/-- A member that only ever stops the run does so, or one before it does, if and only if none before
it replaces the state. -/
theorem stopped_iff (consulted : Consulted answers y members verdict after.reactions decided)
    (ordered : members.Pairwise fun o o' => o.index < o'.index) (member : m ∈ members)
    (only : ∀ action, answers m action → action = .stop) :
    .answered m.index .stop ∈ after.reactions ∨ m.Preceded members after .stop ↔
      ¬ m.Preceded members after .resetState := by
  rw [← consulted.asked_iff ordered member]
  refine or_congr_left' fun others => ⟨fun stopped => ?_, fun asked => ?_⟩
  · refine ((consulted.asked_iff ordered member).mpr ?_).resolve_right others
    rintro ⟨_, _, _, replaced⟩
    exact consulted.not_replaced_of_stopped stopped replaced
  · obtain ⟨action, answer, answered⟩ := consulted.answered_of_asked asked
    exact only action answer ▸ answered

end Consulted

/-- A member of a group is asked, or a member before it stops the run at the event, if and only if
no member before it replaces the state there. Whoever else is asked later is asked about a root
strictly behind the event, so a member that has been cut off never hears of its root. Under the same
condition the run ends at the event if the member only ever stops it. -/
theorem Engine.integrate_group [Spacing Rat] {e e' : Engine ω Rat} (usable : e.Usable) {equation : Equation ω Rat}
    {t0 target t : Rat} {y0 y : State Rat} {w w' : ω}
    (ran : (Engine.integrate equation t0 y0 target).runFrom (e, w) = (.ok (t, y), e', w')) {before after : Journal Rat}
    {window : Window Rat} {group : List (Occurrence Rat)}
    (entries : e'.journal = before ++ .located window group :: after) {m : Occurrence Rat} (member : m ∈ group) :
    ((∃ z, .asked m z ∈ after) ∨ m.Preceded group after .stop ∧ t = m.t ↔ ¬ m.Preceded group after .resetState) ∧
    (∀ o z, .asked o z ∈ after → o ∈ group ∨ Precedes (decide (t0 < target)) m.t o.root) ∧
    ∀ watch ∈ e.watches[m.index]?, watch.1.OnlyStops →
      (((.answered m.index .stop ∈ after.reactions ∨ m.Preceded group after .stop) ∧ t = m.t) ↔
        ¬ m.Preceded group after .resetState) := by
  obtain ⟨course, v, prepared, path, journal, _⟩ := integrate_path ran
  obtain ⟨directed, _, _, _, _, direction⟩ := prepare_ok usable prepared
  obtain ⟨leg, first, rest, s₁, s₂, piece, replies, decided, last, later, rfl, _, _, scanned, route, consulted, split,
    behind, stopping⟩ := path.reaction directed rfl rfl (journal.symm.trans entries)
  have found := Course.found_of_scan scanned
  have time : m.t = first.t := (found.shared first List.mem_cons_self m member).1
  obtain rfl : after.reactions = replies := by
    rw [split, Journal.reactions, List.takeWhile_append_of_pos consulted.unaccepted]
    simp [Entry.piece?]
  -- what is asked behind the piece concerns later roots, so the group itself is asked before it
  have place : ∀ o z, .asked o z ∈ after → .asked o z ∈ after.reactions ∨ Precedes course.forward m.t o.root := by
    intro o z asked
    rw [split, List.mem_append, List.mem_cons] at asked
    rcases asked with asked | accepted | asked
    · exact Or.inl asked
    · cases accepted
    · obtain ⟨window, begun, reported⟩ := behind o z asked
      exact Or.inr (time ▸ begun.trans_precedes (reported.inside directed).1)
  have own : (∃ z, .asked m z ∈ after) ↔ .asked m piece.yStop ∈ after.reactions := by
    constructor
    · rintro ⟨z, asked⟩
      have reached := (route.2.2.2 m member).reached
      rw [← time] at reached
      have asked := (place m z asked).resolve_right (not_precedes.mpr reached)
      obtain rfl := consulted.state_of_asked asked
      exact asked
    · exact fun asked => ⟨_, (List.takeWhile_sublist _).subset asked⟩
  have stops : ∀ index, .answered index .stop ∈ after.reactions → t = m.t := by
    intro index answered
    rw [time]
    exact stopping (consulted.isStop_of_answered answered rfl)
  have ended : m.Preceded (first :: rest) after .stop → t = m.t := fun ⟨l, _, _, stopped⟩ => stops l.index stopped
  refine ⟨?_, fun o z asked => ?_, fun watch at_ onlyStops => ?_⟩
  · rw [own, and_iff_left_of_imp ended]
    exact consulted.asked_iff found.ordered member
  · rw [← direction]
    exact (place o z asked).imp_left consulted.asked_mem
  · rw [and_iff_left_of_imp fun stopped => stopped.elim (stops m.index) ended]
    refine consulted.stopped_iff found.ordered member ?_
    rintro action ⟨watch', registered, answer⟩
    rw [Option.mem_def, registered] at at_
    cases at_
    exact onlyStops _ _ _ _ answer

/-- Two timers for the same time: the first replaces the state, and the second would stop the
run. -/
def Engine.twoTimers : Engine Unit Rat :=
  .timed 1 [(.timer (1 / 2) .resetState (.ofList [5]), ⟨none, 1 / 100, 100, none⟩),
    (.timer (1 / 2) .stop (.ofList [0]), ⟨none, 1 / 100, 100, none⟩)]

/-- The second of two timers for the same time is in the group but is not asked, and the run goes on
to the target. -/
theorem Engine.stop_passed_over :
    letI := Spacing.gapless
    let run := (Engine.integrate .steady 0 (.ofList [0]) 1).runFrom (Engine.twoTimers, ())
    run.1 = .ok (1, .ofList [11 / 2]) ∧
      run.2.1.journal.groups.map (fun located => located.2.map fun o => (o.index, o.t)) = [[(0, 1 / 2), (1, 1 / 2)]] ∧
      run.2.1.journal.notifications.map (fun asked => asked.1.index) = [0] ∧ run.2.1.journal.stops = [] := by
  decide +kernel

/-- The condition under which the second timer is asked fails, since the first one has replaced the
state. -/
theorem Engine.group_of_timers :
    letI := Spacing.gapless
    let journal := ((Engine.integrate .steady 0 (.ofList [0]) 1).runFrom (Engine.twoTimers, ())).2.1.journal
    let timer : Occurrence Rat := ⟨1, 1 / 2, 1 / 2, true⟩
    ∃ window group, timer ∈ group ∧ journal = .located window group :: journal.tail ∧
      timer.Preceded group journal.tail .resetState ∧
      ¬ ((∃ z, .asked timer z ∈ journal.tail) ∨ timer.Preceded group journal.tail .stop ∧ (1 : Rat) = timer.t) := by
  intro journal timer
  have usable : Engine.twoTimers.Usable := usable_timed (by decide +kernel) (by decide +kernel)
  have returned : ((@Engine.integrate _ _ _ Spacing.gapless .steady 0 (.ofList [0]) 1).runFrom
      (Engine.twoTimers, ())).1 = .ok (1, .ofList [11 / 2]) := by decide +kernel
  let group : List (Occurrence Rat) := [⟨0, 1 / 2, 1 / 2, true⟩, timer]
  let step : Step Rat := ⟨0, .ofList [0], 1, .ofList [1], .ofList [1], .ofList [1]⟩
  have entries : journal = [] ++ .located (.ofStep step) group :: journal.tail := by decide +kernel
  have member : timer ∈ group := by decide +kernel
  have preceded : timer.Preceded group journal.tail .resetState :=
    ⟨⟨0, 1 / 2, 1 / 2, true⟩, by decide +kernel, by decide, by decide +kernel⟩
  refine ⟨_, group, member, entries, preceded, fun heard => ?_⟩
  exact (@Engine.integrate_group _ Spacing.gapless _ _ usable _ _ _ _ _ _ _ _ (Prod.ext returned rfl) _ _ _ _ entries _
    member).1.mp heard preceded

end Trajectory
