import Mathlib.Tactic
import Trajectory.Event.Monitor
import Trajectory.Proofs.Channel

/-!
What a monitor does with its channels.

A scan changes no channel; its group is made of first roots of channels, and all its members share
the latest of their roots (`Monitor.Found`). A commit moves the reference point of every channel and
reads the switching function there (`Committed`); an acknowledgement changes one channel only.
-/

namespace Trajectory

variable {ω : Type} {forward : Bool}

namespace Candidate

theorem earliest_mem (best : Candidate Rat) (rest : List (Candidate Rat)) :
    earliest forward best rest ∈ best :: rest := by
  induction rest generalizing best with
  | nil => exact List.mem_cons_self
  | cons c rest ih =>
    rw [earliest]
    split
    · exact List.mem_cons_of_mem best (ih c)
    · exact (List.mem_cons.mp (ih best)).elim (fun same => by rw [same]; exact List.mem_cons_self)
        fun later => List.mem_cons_of_mem best (List.mem_cons_of_mem c later)

theorem latest_mem (best : Candidate Rat) (rest : List (Candidate Rat)) :
    latest forward best rest ∈ best :: rest := by
  induction rest generalizing best with
  | nil => exact List.mem_cons_self
  | cons c rest ih =>
    rw [latest]
    split
    · exact (List.mem_cons.mp (ih best)).elim (fun same => by rw [same]; exact List.mem_cons_self)
        fun later => List.mem_cons_of_mem best (List.mem_cons_of_mem c later)
    · exact List.mem_cons_of_mem best (ih c)

theorem earliest_notAfter (best : Candidate Rat) (rest : List (Candidate Rat)) :
    ∀ c ∈ best :: rest, NotAfter forward (earliest forward best rest).found.root c.found.root := by
  induction rest generalizing best with
  | nil =>
    intro c mem
    rw [List.mem_singleton.mp mem]
    exact .refl
  | cons d rest ih =>
    have order : ∀ a b : Candidate Rat, a.key forward < b.key forward ↔
        Precedes forward a.found.root b.found.root := fun a b => precedes_iff_sign.symm
    intro c mem
    rw [earliest]
    split
    · rename_i less
      rcases List.mem_cons.mp mem with rfl | mem
      · exact (ih _ _ List.mem_cons_self).trans ((order _ _).mp less).notAfter
      · exact ih _ _ mem
    · rename_i notLess
      rcases List.mem_cons.mp mem with rfl | mem
      · exact ih _ _ List.mem_cons_self
      rcases List.mem_cons.mp mem with rfl | mem
      · exact (ih _ _ List.mem_cons_self).trans (not_precedes.mp fun h => notLess ((order _ _).mpr h))
      · exact ih _ _ (List.mem_cons_of_mem _ mem)

/-- Among candidates in the order of their indices the earliest one has the lowest index of those
with its root. -/
theorem earliest_lowest {best : Candidate Rat} {rest : List (Candidate Rat)}
    (ordered : (best :: rest).Pairwise fun c d => c.index < d.index) :
    ∀ c ∈ best :: rest, c.found.root = (earliest forward best rest).found.root →
      (earliest forward best rest).index ≤ c.index := by
  induction rest generalizing best with
  | nil =>
    intro c mem _
    rw [List.mem_singleton.mp mem]
    exact le_rfl
  | cons d rest ih =>
    obtain ⟨lower, others⟩ := List.pairwise_cons.mp ordered
    intro c mem same
    rw [earliest] at same ⊢
    split at same
    · rename_i less
      rw [if_pos less]
      rcases List.mem_cons.mp mem with rfl | mem
      · -- The displaced best candidate has a later root.
        have order : Precedes forward d.found.root c.found.root := precedes_iff_sign.mpr less
        exact absurd same.symm ((earliest_notAfter d rest d List.mem_cons_self).trans_precedes order).ne
      · exact ih others c mem same
    · rename_i notLess
      rw [if_neg notLess]
      have kept : (best :: rest).Pairwise fun c d => c.index < d.index :=
        List.pairwise_cons.mpr ⟨fun c mem => lower c (List.mem_cons_of_mem d mem), (List.pairwise_cons.mp others).2⟩
      rcases List.mem_cons.mp mem with rfl | mem
      · exact ih kept c List.mem_cons_self same
      rcases List.mem_cons.mp mem with rfl | mem
      · -- A root no earlier than the one of the best so far can only equal the earliest if that one does.
        have order : NotAfter forward best.found.root c.found.root :=
          not_precedes.mp fun less => notLess (precedes_iff_sign.mp less)
        have least : NotAfter forward c.found.root best.found.root :=
          same ▸ earliest_notAfter best rest best List.mem_cons_self
        have equal : best.found.root = c.found.root := by
          by_contra different
          exact absurd least (not_notAfter.mpr (order.precedes_of_ne different))
        exact (ih kept best List.mem_cons_self (equal.trans same)).trans (lower c List.mem_cons_self).le
      · exact ih kept c (List.mem_cons_of_mem best mem) same

theorem notAfter_latest (best : Candidate Rat) (rest : List (Candidate Rat)) :
    ∀ c ∈ best :: rest, NotAfter forward c.found.root (latest forward best rest).found.root := by
  induction rest generalizing best with
  | nil =>
    intro c mem
    rw [List.mem_singleton.mp mem]
    exact .refl
  | cons d rest ih =>
    have order : ∀ a b : Candidate Rat, a.key forward < b.key forward ↔
        Precedes forward a.found.root b.found.root := fun a b => precedes_iff_sign.symm
    intro c mem
    rw [latest]
    split
    · rename_i less
      rcases List.mem_cons.mp mem with rfl | mem
      · exact ih _ _ List.mem_cons_self
      rcases List.mem_cons.mp mem with rfl | mem
      · exact ((order _ _).mp less).notAfter.trans (ih _ _ List.mem_cons_self)
      · exact ih _ _ (List.mem_cons_of_mem _ mem)
    · rename_i notLess
      rcases List.mem_cons.mp mem with rfl | mem
      · exact (not_precedes.mp fun h => notLess ((order _ _).mpr h)).trans (ih _ _ List.mem_cons_self)
      · exact ih _ _ mem

end Candidate

namespace Monitor

/-- The members of the group of some candidates, in their order, with the latest of their roots as
the time of the event: those whose roots are no farther from the earliest one than its tolerance. -/
theorem group_eq (forward : Bool) (tolerance : Nat → Rat) (candidates : List (Candidate Rat)) :
    ∃ (members : List (Candidate Rat)) (t : Rat),
      group forward tolerance candidates =
        members.map (fun c => ⟨c.index, t, c.found.root, c.found.increasing⟩) ∧
      (members ≠ [] → ∃ c ∈ members, t = c.found.root) ∧ (∀ c ∈ members, NotAfter forward c.found.root t) ∧
      members.Sublist candidates ∧
      (candidates ≠ [] → ∃ winner ∈ candidates,
        (∀ c ∈ candidates, NotAfter forward winner.found.root c.found.root) ∧
        (candidates.Pairwise (fun c d => c.index < d.index) →
          ∀ c ∈ candidates, c.found.root = winner.found.root → winner.index ≤ c.index) ∧
        members = candidates.filter fun c => decide (|c.found.root - winner.found.root| ≤ tolerance winner.index)) := by
  cases candidates with
  | nil => exact ⟨[], 0, rfl, fun h => absurd rfl h, fun _ mem => absurd mem List.not_mem_nil, .slnil,
      fun h => absurd rfl h⟩
  | cons first rest =>
    have member : Candidate.earliest forward first rest ∈ first :: rest := Candidate.earliest_mem first rest
    have earliest : ∀ c ∈ first :: rest, NotAfter forward _ c.found.root := Candidate.earliest_notAfter first rest
    have lowest : (first :: rest).Pairwise (fun c d => c.index < d.index) → ∀ c ∈ first :: rest,
        c.found.root = (Candidate.earliest forward first rest).found.root → _ ≤ c.index := Candidate.earliest_lowest
    have distance : ∀ c ∈ first :: rest, decide (runSign forward *
        (c.found.root - (Candidate.earliest forward first rest).found.root) ≤
          tolerance (Candidate.earliest forward first rest).index) =
        decide (|c.found.root - (Candidate.earliest forward first rest).found.root| ≤
          tolerance (Candidate.earliest forward first rest).index) := by
      intro c mem
      rw [(earliest c mem).abs_sub]
    rw [group]
    dsimp only
    rw [List.filter_congr distance]
    split
    · rename_i ungrouped
      exact ⟨[], 0, rfl, fun h => absurd rfl h, fun _ mem => absurd mem List.not_mem_nil, List.nil_sublist _,
        fun _ => ⟨_, member, earliest, lowest, ungrouped.symm⟩⟩
    · rename_i best others joined
      exact ⟨best :: others, _, rfl, fun _ => ⟨_, Candidate.latest_mem best others, rfl⟩,
        Candidate.notAfter_latest best others, joined ▸ List.filter_sublist,
        fun _ => ⟨_, member, earliest, lowest, joined.symm⟩⟩

/-- The earliest candidate belongs to its group, and so do those whose roots are no farther away
than its tolerance. -/
theorem group_winner (forward : Bool) {tolerance : Nat → Rat} {candidates : List (Candidate Rat)}
    (nonempty : candidates ≠ []) (ordered : candidates.Pairwise fun c d => c.index < d.index)
    (positive : ∀ c ∈ candidates, 0 < tolerance c.index) :
    ∃ winner ∈ group forward tolerance candidates, (∃ c ∈ candidates, c.index = winner.index) ∧
      (∀ o ∈ group forward tolerance candidates, NotAfter forward winner.root o.root ∧
        |o.root - winner.root| ≤ tolerance winner.index) ∧
      ∀ c ∈ candidates, (∃ o ∈ group forward tolerance candidates, o.index = c.index) ↔
        |c.found.root - winner.root| ≤ tolerance winner.index := by
  obtain ⟨_, t, grouped, _, _, _, filtered⟩ := group_eq forward tolerance candidates
  obtain ⟨winner, member, earliest, _, rfl⟩ := filtered nonempty
  have distinct : (candidates.map fun c => c.index).Nodup :=
    List.pairwise_map.mpr (ordered.imp fun less => less.ne)
  refine ⟨⟨winner.index, t, winner.found.root, winner.found.increasing⟩, ?_, ⟨winner, member, rfl⟩, ?_, ?_⟩
  · rw [grouped]
    refine List.mem_map_of_mem (List.mem_filter.mpr ⟨member, decide_eq_true ?_⟩)
    rw [sub_self, abs_zero]
    exact (positive winner member).le
  · intro o mem
    rw [grouped] at mem
    obtain ⟨c, filtered, rfl⟩ := List.mem_map.mp mem
    obtain ⟨candidate, near⟩ := List.mem_filter.mp filtered
    exact ⟨earliest c candidate, of_decide_eq_true near⟩
  · intro c candidate
    rw [grouped]
    constructor
    · rintro ⟨o, mem, own⟩
      obtain ⟨d, filtered, rfl⟩ := List.mem_map.mp mem
      obtain ⟨other, near⟩ := List.mem_filter.mp filtered
      obtain rfl := List.inj_on_of_nodup_map distinct other candidate own
      exact of_decide_eq_true near
    · intro near
      exact ⟨_, List.mem_map_of_mem (List.mem_filter.mpr ⟨candidate, decide_eq_true near⟩), rfl⟩

variable [Spacing Rat] {window : Window Rat} {t : Rat} {y : State Rat}

/-- The candidates of a scan are what the channels' searches reported, each under the index of its
channel. -/
theorem candidates_ok {base : Nat} {channels : List (Channel ω Rat)} {found : List (Candidate Rat)} {v v' : ω}
    (ran : (candidates forward window base channels).runFrom v = (.ok found, v')) :
    found.Pairwise (fun c d => c.index < d.index) ∧
      (∀ k ∈ found, ∃ i c, k.index = base + i ∧ channels[i]? = some c ∧
        (c.firstRoot forward window).Returns (some k.found)) ∧
      ∀ i c, channels[i]? = some c → (c.firstRoot forward window).Returns none ∨
        ∃ k ∈ found, k.index = base + i := by
  induction channels generalizing base found v v' with
  | nil =>
    rw [candidates, Effect.runFrom_pure] at ran
    cases ran
    exact ⟨.nil, fun _ mem => absurd mem List.not_mem_nil, fun i c at_ => by simp at at_⟩
  | cons channel rest ih =>
    rw [candidates, Effect.runFrom_bind_ok] at ran
    obtain ⟨result, v₁, searched, ran⟩ := ran
    rw [Effect.runFrom_bind_ok] at ran
    obtain ⟨later, v₂, others, ran⟩ := ran
    have returned := Effect.returns_of_runFrom searched
    obtain ⟨order, reported, complete⟩ := ih others
    have shifted : ∀ k ∈ later, ∃ i c, k.index = base + i ∧ (channel :: rest)[i]? = some c ∧
        (c.firstRoot forward window).Returns (some k.found) := by
      intro k mem
      obtain ⟨i, c, index, at_, value⟩ := reported k mem
      exact ⟨i + 1, c, by omega, at_, value⟩
    cases result with
    | none =>
      rw [Effect.runFrom_pure] at ran
      cases ran
      refine ⟨order, shifted, fun i c at_ => ?_⟩
      cases i with
      | zero =>
        cases at_
        exact Or.inl returned
      | succ i =>
        exact (complete i c at_).imp_right fun ⟨k, mem, index⟩ => ⟨k, mem, by omega⟩
    | some crossing =>
      rw [Effect.runFrom_pure] at ran
      cases ran
      refine ⟨List.pairwise_cons.mpr ⟨fun k mem => ?_, order⟩, fun k mem => ?_, fun i c at_ => ?_⟩
      · obtain ⟨i, c, index, _⟩ := reported k mem
        exact (by omega : base < k.index)
      · rcases List.mem_cons.mp mem with rfl | mem
        · exact ⟨0, channel, rfl, rfl, returned⟩
        · exact shifted k mem
      · cases i with
        | zero => exact Or.inr ⟨_, List.mem_cons_self, rfl⟩
        | succ i =>
          exact (complete i c at_).imp_right fun ⟨k, mem, index⟩ =>
            ⟨k, List.mem_cons_of_mem _ mem, by omega⟩

/-- What a scan returns: a group of first roots of different channels in the order of their indices,
which share the latest of the roots as the time of the event. -/
structure Found (m : Monitor ω Rat) (window : Window Rat) (group : List (Occurrence Rat)) : Prop where
  /-- The members are in the order of their indices. -/
  ordered : group.Pairwise fun o o' => o.index < o'.index
  /-- The root of a member is what the search of its channel reported. -/
  reported : ∀ o ∈ group, ∃ c, m.channels[o.index]? = some c ∧
    (c.firstRoot m.forward window).Returns (some ⟨o.root, o.increasing⟩)
  /-- No root of the group comes after the time of the event, which is the same for all members. -/
  shared : ∀ o ∈ group, ∀ o' ∈ group, o'.t = o.t ∧ NotAfter m.forward o'.root o.t
  /-- The time of the event is the root of a member. -/
  attained : ∀ o ∈ group, ∃ o' ∈ group, o.t = o'.root

/-- The group of the candidates of a scan. -/
theorem found_of_candidates {m : Monitor ω Rat} {found : List (Candidate Rat)} (tolerance : Nat → Rat) {v v' : ω}
    (ran : (candidates m.forward window 0 m.channels).runFrom v = (.ok found, v')) :
    m.Found window (group m.forward tolerance found) := by
  obtain ⟨order, reported, _⟩ := candidates_ok ran
  obtain ⟨members, t, grouped, latest, bounded, sub, _⟩ := group_eq m.forward tolerance found
  rw [grouped]
  refine ⟨?_, ?_, ?_, ?_⟩
  · exact List.pairwise_map.mpr (order.sublist sub)
  · intro o mem
    obtain ⟨k, member, rfl⟩ := List.mem_map.mp mem
    obtain ⟨i, c, index, at_, returned⟩ := reported k (sub.subset member)
    rw [Nat.zero_add] at index
    exact ⟨c, index ▸ at_, returned⟩
  · intro o mem o' mem'
    obtain ⟨k, _, rfl⟩ := List.mem_map.mp mem
    obtain ⟨k', member', rfl⟩ := List.mem_map.mp mem'
    exact ⟨rfl, bounded k' member'⟩
  · intro o mem
    obtain ⟨k, member, rfl⟩ := List.mem_map.mp mem
    obtain ⟨k', member', same⟩ := latest (List.ne_nil_of_mem member)
    exact ⟨_, List.mem_map_of_mem member', same⟩

theorem scan_ok {m m' : Monitor ω Rat} {v v' : ω} {group : List (Occurrence Rat)}
    (ran : (scan window).runFrom (m, v) = (.ok group, m', v')) :
    m'.channels = m.channels ∧ m'.forward = m.forward ∧ ∃ found,
      (candidates m.forward window 0 m.channels).runFrom v = (.ok found, v') ∧
      group = Monitor.group m.forward m.tolerance found := by
  simp only [scan, change, Effect.runFrom_bind_ok, Effect.runFrom_modify, Effect.runFrom_get,
    Effect.runFrom_pure, Prod.mk.injEq, Except.ok.injEq] at ran
  obtain ⟨_, _, ⟨_, rfl⟩, _, _, ⟨rfl, rfl⟩, found, ⟨m₁, v₁⟩, searched, _, _, ⟨_, rfl⟩, rfl, rfl, rfl⟩ := ran
  rw [Effect.runFrom_onSecond, Prod.mk.injEq, Prod.mk.injEq] at searched
  obtain ⟨outcome, rfl, rfl⟩ := searched
  exact ⟨rfl, rfl, found, Prod.ext outcome rfl, rfl⟩

omit [Spacing Rat]

/-- A channel after a commit at a time with a state: its reference point is there, its last event
stays, and it is armed unless it was disarmed and the time lies in the re-trigger window. -/
structure Committed (t : Rat) (y : State Rat) (c c' : Channel ω Rat) : Prop where
  handler : c'.handler = c.handler
  settings : c'.settings = c.settings
  tRef : c'.tRef = t
  gRef : (c.handler.g t y).Returns c'.gRef
  lastEvent : c'.lastEvent = c.lastEvent
  armed : c'.armed = (c.armed || !c.inWindow t)

theorem Committed.inWindow_eq {c c' : Channel ω Rat} (committed : Committed t y c c') :
    c'.inWindow t = c.inWindow t := by
  rw [Channel.inWindow, Channel.inWindow, committed.lastEvent, committed.settings]

/-- A channel after the start of a run at a time with a state: it remembers no event. -/
structure Opened (t : Rat) (y : State Rat) (c c' : Channel ω Rat) : Prop where
  handler : c'.handler = c.handler
  settings : c'.settings = c.settings
  tRef : c'.tRef = t
  gRef : (c.handler.g t y).Returns c'.gRef
  lastEvent : c'.lastEvent = none
  armed : c'.armed = true

private theorem moveReference_ok {c c' : Channel ω Rat} {v v' : ω}
    (ran : (moveReference t y).runFrom (c, v) = (.ok (), c', v')) :
    ∃ value, (c.handler.g t y).Returns value ∧ c' = { c with tRef := t, gRef := value } := by
  simp only [moveReference, changeChannel, Effect.runFrom_bind_ok, Effect.runFrom_modify,
    Effect.runFrom_get, Prod.mk.injEq, Except.ok.injEq] at ran
  obtain ⟨_, _, ⟨_, rfl⟩, _, _, ⟨rfl, rfl⟩, value, after, called, _, rfl, rfl⟩ := ran
  cases evaluated : (c.handler.g t y).runFrom v with
  | mk outcome u =>
    rw [Effect.runFrom_onSecond, evaluated] at called
    cases called
    exact ⟨value, Effect.returns_of_runFrom evaluated, rfl⟩

theorem commit_ok {m m' : Monitor ω Rat} {v v' : ω}
    (ran : (commit t y).runFrom (m, v) = (.ok (), m', v')) :
    m'.forward = m.forward ∧ List.Forall₂ (Committed t y) m.channels m'.channels := by
  unfold commit onChannels at ran
  rw [Effect.runFrom_within_ok] at ran
  obtain ⟨⟨channels, u⟩, each, same⟩ := ran
  cases same
  refine ⟨rfl, (Effect.forEach_ok each).imp fun c c' changed => ?_⟩
  obtain ⟨u₁, u₂, changed⟩ := changed
  rw [Effect.runFrom_bind_ok] at changed
  obtain ⟨_, ⟨moved, u₃⟩, reference, changed⟩ := changed
  obtain ⟨value, returned, rfl⟩ := moveReference_ok reference
  simp only [changeChannel, Effect.runFrom_modify, Prod.mk.injEq, true_and] at changed
  obtain ⟨rfl, _⟩ := changed
  have window : Channel.inWindow { c with tRef := t, gRef := value } t = c.inWindow t := rfl
  rw [window]
  cases armed : c.armed <;> cases inside : c.inWindow t <;>
    exact ⟨rfl, rfl, rfl, returned, rfl, by simp [armed, inside]⟩

theorem init_ok {m m' : Monitor ω Rat} {v v' : ω} {target : Rat}
    (ran : (init t y target).runFrom (m, v) = (.ok (), m', v')) :
    m'.forward = decide (t ≤ target) ∧ List.Forall₂ (Opened t y) m.channels m'.channels := by
  simp only [init, change, Effect.runFrom_bind_ok, Effect.runFrom_modify, Prod.mk.injEq] at ran
  obtain ⟨_, _, ⟨_, rfl⟩, _, ⟨m₁, u₁⟩, channels, _, rfl, rfl⟩ := ran
  unfold onChannels at channels
  rw [Effect.runFrom_within_ok] at channels
  obtain ⟨⟨after, u₂⟩, each, same⟩ := channels
  cases same
  refine ⟨rfl, (Effect.forEach_ok each).imp fun c c' changed => ?_⟩
  obtain ⟨u₃, u₄, changed⟩ := changed
  simp only [changeChannel, Effect.runFrom_bind_ok, Effect.runFrom_modify, Effect.runFrom_get,
    Prod.mk.injEq, Except.ok.injEq] at changed
  obtain ⟨_, _, ⟨rfl, rfl⟩, _, ⟨c₁, u₅⟩, greeted, _, _, ⟨_, rfl⟩, moved⟩ := changed
  rw [Effect.runFrom_onSecond, Prod.mk.injEq, Prod.mk.injEq] at greeted
  obtain ⟨_, rfl, _⟩ := greeted
  obtain ⟨value, returned, rfl⟩ := moveReference_ok moved
  exact ⟨rfl, rfl, rfl, returned, rfl, rfl⟩

private theorem moveReference_error {c : Channel ω Rat} {v : ω} {e : Error Rat} {u : Channel ω Rat × ω}
    (failed : (moveReference t y).runFrom (c, v) = (.error e, u)) : (c.handler.g t y).Raises e := by
  rw [moveReference, changeChannel, Effect.runFrom_bind, Effect.runFrom_modify] at failed
  dsimp only at failed
  rw [Effect.runFrom_bind, Effect.runFrom_get] at failed
  rcases Effect.runFrom_bind_error.mp failed with failed | ⟨_, _, _, impossible⟩
  · obtain ⟨_, raised⟩ := Effect.runFrom_within_error failed
    exact ⟨v, _, raised⟩
  · rw [changeChannel, Effect.runFrom_modify] at impossible
    cases impossible

/-- A commit fails only if a switching function does. -/
theorem commit_error {m : Monitor ω Rat} {v : ω} {e : Error Rat} {u : Monitor ω Rat × ω}
    (failed : (commit t y).runFrom (m, v) = (.error e, u)) : ∃ c ∈ m.channels, (c.handler.g t y).Raises e := by
  rw [commit, onChannels] at failed
  obtain ⟨_, each⟩ := Effect.runFrom_within_error failed
  obtain ⟨c, mem, _, _, _, failed⟩ := Effect.forEach_error each
  refine ⟨c, mem, ?_⟩
  rcases Effect.runFrom_bind_error.mp failed with failed | ⟨_, _, _, impossible⟩
  · exact moveReference_error failed
  · rw [changeChannel, Effect.runFrom_modify] at impossible
    cases impossible

/-- The start of a run fails on a channel only if its handler does. -/
theorem init_error {m : Monitor ω Rat} {v : ω} {e : Error Rat} {u : Monitor ω Rat × ω} {target : Rat}
    (failed : (init t y target).runFrom (m, v) = (.error e, u)) :
    ∃ c ∈ m.channels, (c.handler.init t y target).Raises e ∨ (c.handler.g t y).Raises e := by
  rw [init, change, Effect.runFrom_bind, Effect.runFrom_modify] at failed
  dsimp only at failed
  rcases Effect.runFrom_bind_error.mp failed with failed | ⟨_, _, _, impossible⟩
  · rw [onChannels] at failed
    obtain ⟨_, each⟩ := Effect.runFrom_within_error failed
    obtain ⟨c, mem, v', _, _, failed⟩ := Effect.forEach_error each
    refine ⟨c, mem, ?_⟩
    rw [Effect.runFrom_bind, Effect.runFrom_get] at failed
    rcases Effect.runFrom_bind_error.mp failed with failed | ⟨_, ⟨c₁, v₁⟩, greeted, failed⟩
    · obtain ⟨_, raised⟩ := Effect.runFrom_within_error failed
      exact Or.inl ⟨v', _, raised⟩
    · obtain ⟨_, _, same⟩ := Effect.runFrom_within_ok.mp greeted
      cases same
      rw [changeChannel, Effect.runFrom_bind, Effect.runFrom_modify] at failed
      have moved := moveReference_error failed
      exact Or.inr moved
  · rw [change, Effect.runFrom_modify] at impossible
    cases impossible

/-- The event of a watched handler can be acknowledged, which changes its channel only. -/
theorem acknowledge_watched {m : Monitor ω Rat} {v : ω} {index : Nat} {c : Channel ω Rat}
    (watched : m.channels[index]? = some c) :
    (acknowledge index t).runFrom (m, v) = (.ok (),
      { m with channels := m.channels.set index { c with lastEvent := some t, armed := false } }, v) := by
  simp [acknowledge, change, watched]

theorem acknowledge_ok {m m' : Monitor ω Rat} {v v' : ω} {index : Nat}
    (ran : (acknowledge index t).runFrom (m, v) = (.ok (), m', v')) :
    ∃ c, m.channels[index]? = some c ∧ v' = v ∧
      m' = { m with channels := m.channels.set index { c with lastEvent := some t, armed := false } } := by
  simp only [acknowledge, change, Effect.runFrom_bind_ok, Effect.runFrom_get, Prod.mk.injEq,
    Except.ok.injEq] at ran
  obtain ⟨_, _, ⟨rfl, rfl⟩, ran⟩ := ran
  cases channel : m.channels[index]? with
  | none => simp [channel] at ran
  | some c =>
    simp only [channel, Effect.runFrom_modify, Prod.mk.injEq, true_and] at ran
    exact ⟨c, rfl, ran.2.symm, ran.1.symm⟩

end Monitor

end Trajectory
