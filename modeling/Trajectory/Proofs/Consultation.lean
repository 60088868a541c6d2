import Mathlib.Tactic
import Trajectory.Proofs.Handover
import Trajectory.Proofs.Ledger
import Trajectory.Proofs.Monitor
import Trajectory.Proofs.Steady

/-!
Groups of events whose members answer mildly.

A mild answer lets the run go on with its state. If all members of a group give one, they are all told,
and what the session becomes does not depend on what each of them has answered, but for the entries
about the answers (`Course.runFrom_consult`).
-/

namespace Trajectory

open Effect

variable {ω β : Type}

/-- An answer after which the run goes on with its state. -/
def Action.Mild (action : Action) : Prop := action = .carryOn ∨ action = .resetDerivatives

instance : DecidablePred Action.Mild :=
  fun action => inferInstanceAs (Decidable (action = .carryOn ∨ action = .resetDerivatives))

/-- The channel of a handler whose event at a time has been dealt with. -/
def Channel.dealt (t : Rat) (c : Channel ω Rat) : Channel ω Rat := { c with lastEvent := some t, armed := false }

/-- The answer of a handler that is told of an event, if it gives one. -/
def Monitor.reply (m : Monitor ω Rat) (w : ω) (t : Rat) (y : State Rat) (o : Occurrence Rat) : Option Action :=
  m.channels[o.index]?.bind fun c => ((c.handler.eventOccurred t y o.increasing).runFrom w).1.toOption

/-- The entries about the members of a group and their answers. -/
def Journal.consulting (m : Monitor ω Rat) (w : ω) (t : Rat) (y : State Rat) (group : List (Occurrence Rat)) :
    Journal Rat :=
  group.flatMap fun o => [.asked o y, .answered o.index ((m.reply w t y o).getD .carryOn)]

/-- The monitor after the members of a group have been told. -/
def Monitor.dealt (t : Rat) (group : List (Occurrence Rat)) (m : Monitor ω Rat) : Monitor ω Rat :=
  { m with channels := m.channels.mapIdx fun i c => if i ∈ group.map Occurrence.index then c.dealt t else c }

/-- The session after the members of a group have been told. -/
def Session.consulted (s : Session ω Rat) (t : Rat) (y : State Rat) (group : List (Occurrence Rat)) : Session ω Rat :=
  { s with
    monitor := s.monitor.dealt t group
    latestEntries := (Journal.consulting s.monitor s.tally.world t y group).reverse ++ s.latestEntries }

theorem Session.journal_consulted (s : Session ω Rat) (t : Rat) (y : State Rat) (group : List (Occurrence Rat)) :
    (s.consulted t y group).journal = s.journal ++ Journal.consulting s.monitor s.tally.world t y group := by
  rw [journal, consulted, List.reverse_append, List.reverse_reverse]
  rfl

/-- What mild answers of a group decide. -/
def Verdict.mild (m : Monitor ω Rat) (w : ω) (t : Rat) (y : State Rat) (group : List (Occurrence Rat))
    (verdict : Verdict ω Rat) : Verdict ω Rat :=
  if ∃ o ∈ group, m.reply w t y o = some .resetDerivatives then .restart else verdict

section

variable {m : Monitor ω Rat} {s s₁ : Session ω Rat} {w : ω} {t : Rat} {y : State Rat} {o : Occurrence Rat}
  {group rest : List (Occurrence Rat)} {verdict v : Verdict ω Rat} {action : Action}

theorem Monitor.channels_dealt (m : Monitor ω Rat) (t : Rat) (group : List (Occurrence Rat)) (i : Nat) :
    (m.dealt t group).channels[i]? =
      m.channels[i]?.map fun c => if i ∈ group.map Occurrence.index then c.dealt t else c :=
  List.getElem?_mapIdx

/-- Dealing with events changes no handler. -/
theorem Monitor.reply_dealt (m : Monitor ω Rat) (group : List (Occurrence Rat)) (o : Occurrence Rat) :
    (m.dealt t group).reply w t y o = m.reply w t y o := by
  rw [reply, reply, channels_dealt]
  cases m.channels[o.index]? with
  | none => rfl
  | some c =>
    rw [Option.map_some, Option.bind_some, Option.bind_some]
    split
    · rfl
    · rfl

theorem Monitor.dealt_dealt (m : Monitor ω Rat) (t : Rat) (group rest : List (Occurrence Rat)) :
    (m.dealt t group).dealt t rest = m.dealt t (group ++ rest) := by
  have channels : ((m.dealt t group).dealt t rest).channels = (m.dealt t (group ++ rest)).channels := by
    apply List.ext_getElem?
    intro i
    rw [channels_dealt, channels_dealt, channels_dealt, Option.map_map]
    congr 1
    funext c
    simp only [Function.comp, List.map_append, List.mem_append]
    by_cases first : i ∈ group.map Occurrence.index
    · by_cases second : i ∈ rest.map Occurrence.index
      · simp only [first, second, or_self, if_true]
        rfl
      · simp only [first, second, or_false, if_true, if_false]
    · simp only [first, false_or, if_false]
  exact congrArg (fun channels => { m with channels := channels }) channels

theorem Session.consulted_consulted (s : Session ω Rat) (t : Rat) (y : State Rat) (group rest : List (Occurrence Rat)) :
    (s.consulted t y group).consulted t y rest = s.consulted t y (group ++ rest) := by
  have told : Journal.consulting (s.monitor.dealt t group) s.tally.world t y rest =
      Journal.consulting s.monitor s.tally.world t y rest := by
    simp only [Journal.consulting, Monitor.reply_dealt]
  have whole : Journal.consulting s.monitor s.tally.world t y (group ++ rest) =
      Journal.consulting s.monitor s.tally.world t y group ++ Journal.consulting s.monitor s.tally.world t y rest :=
    List.flatMap_append
  simp only [consulted, Monitor.dealt_dealt, told, whole, List.reverse_append, List.append_assoc]

theorem Session.runFrom_outside_steady {x : Effect ω Rat β} {r : Except (Error Rat) β}
    (always : ∀ w, x.runFrom w = (r, w)) (s : Session ω Rat) : (Session.outside x).runFrom s = (r, s) := by
  rw [outside, onTally, runFrom_within, Tally.outside, runFrom_within, always]

theorem Session.runFrom_onMonitor {x : Effect (Monitor ω Rat × ω) Rat β} {r : Except (Error Rat) β}
    (ran : x.runFrom (s.monitor, s.tally.world) = (r, m, s.tally.world)) :
    (Session.onMonitor x).runFrom s = (r, { s with monitor := m }) := by
  rw [onMonitor, runFrom_within, ran]

/-- The acknowledgement of an event. -/
theorem Monitor.acknowledge_dealt {c : Channel ω Rat} (watched : m.channels[o.index]? = some c) (w : ω) :
    (acknowledge o.index t).runFrom (m, w) = (.ok (), m.dealt t [o], w) := by
  rw [acknowledge_watched watched]
  have channels : m.channels.set o.index (c.dealt t) = (m.dealt t [o]).channels := by
    apply List.ext_getElem?
    intro i
    rw [channels_dealt, List.getElem?_set]
    by_cases own : o.index = i
    · subst own
      rw [if_pos rfl, if_pos (List.getElem?_eq_some_iff.mp watched).1, watched, Option.map_some,
        if_pos (List.mem_map_of_mem (List.mem_singleton.mpr rfl))]
    · have other : ¬ i ∈ [o].map Occurrence.index := fun mem => own (List.mem_singleton.mp mem).symm
      simp only [if_neg own, if_neg other]
      exact Option.map_id'.symm
  exact congrArg (fun channels => (Except.ok (), { m with channels := channels }, w)) channels

/-- A member of a group that is told of its event and answers mildly leaves the others to be told. -/
theorem Course.consult_cons (steady : ∀ c ∈ s.monitor.channels, c.handler.Steady) (time : o.t = t)
    (replied : s.monitor.reply s.tally.world t y o = some action) (mild : action.Mild) :
    (consult t y (o :: rest) verdict).runFrom s =
      (consult t y rest (if action = .resetDerivatives then .restart else verdict)).runFrom (s.consulted t y [o]) := by
  cases watched : s.monitor.channels[o.index]? with
  | none => simp [Monitor.reply, watched] at replied
  | some c =>
    obtain ⟨r, always⟩ := (steady c (List.mem_of_getElem? watched)).eventOccurred t y o.increasing
    obtain rfl : r = .ok action := by
      rw [Monitor.reply, watched, Option.bind_some, always] at replied
      cases r with
      | error e => cases replied
      | ok a => exact congrArg _ (Option.some.inj replied)
    have told : s.consulted t y [o] =
        { s with
          monitor := s.monitor.dealt t [o]
          latestEntries := .answered o.index action :: .asked o y :: s.latestEntries } := by
      simp [Session.consulted, Journal.consulting, replied]
    have acknowledged : (Session.onMonitor (Monitor.acknowledge o.index t)).runFrom
        ((s.noted (.asked o y)).noted (.answered o.index action)) = (.ok (), s.consulted t y [o]) := by
      rw [told]
      exact Session.runFrom_onMonitor (Monitor.acknowledge_dealt watched s.tally.world)
    rw [consult, runFrom_bind, runFrom_get]
    dsimp only
    rw [watched]
    dsimp only
    rw [runFrom_bind, Session.runFrom_note]
    dsimp only
    rw [runFrom_bind, Session.runFrom_outside_steady always]
    dsimp only
    rw [runFrom_bind, Session.runFrom_note]
    dsimp only
    rw [time, runFrom_bind, acknowledged]
    rcases mild with rfl | rfl
    · rfl
    · rfl

theorem Monitor.steady_dealt (steady : ∀ c ∈ m.channels, c.handler.Steady) :
    ∀ c ∈ (m.dealt t group).channels, c.handler.Steady := by
  intro c mem
  obtain ⟨i, at_⟩ := List.getElem?_of_mem mem
  rw [channels_dealt, Option.map_eq_some_iff] at at_
  obtain ⟨d, at_, rfl⟩ := at_
  split
  · exact steady d (List.mem_of_getElem? at_)
  · exact steady d (List.mem_of_getElem? at_)

theorem Session.consulted_nil (s : Session ω Rat) (t : Rat) (y : State Rat) : s.consulted t y [] = s := by
  have channels : (s.monitor.dealt t []).channels = s.monitor.channels := by
    apply List.ext_getElem?
    intro i
    rw [Monitor.channels_dealt]
    exact Option.map_id'
  exact congrArg (fun channels => { s with monitor := { s.monitor with channels := channels } }) channels

theorem Verdict.mild_cons (replied : m.reply w t y o = some action) :
    Verdict.mild m w t y (o :: rest) verdict =
      Verdict.mild (m.dealt t [o]) w t y rest (if action = .resetDerivatives then .restart else verdict) := by
  have others : (∃ o' ∈ rest, (m.dealt t [o]).reply w t y o' = some .resetDerivatives) ↔
      ∃ o' ∈ rest, m.reply w t y o' = some .resetDerivatives := by
    simp only [Monitor.reply_dealt]
  have whole : (∃ o' ∈ o :: rest, m.reply w t y o' = some .resetDerivatives) ↔
      action = .resetDerivatives ∨ ∃ o' ∈ rest, m.reply w t y o' = some .resetDerivatives := by
    simp [replied]
  by_cases later : ∃ o' ∈ rest, m.reply w t y o' = some .resetDerivatives
  · rw [mild, mild, if_pos (whole.mpr (Or.inr later)), if_pos (others.mpr later)]
  · by_cases now : action = .resetDerivatives
    · rw [mild, mild, if_pos (whole.mpr (Or.inl now)), if_neg (others.not.mpr later), if_pos now]
    · rw [mild, mild, if_neg (whole.not.mpr (not_or.mpr ⟨now, later⟩)), if_neg (others.not.mpr later), if_neg now]

/-- The members of a group that answer mildly are all told, and decide together whether stepping starts afresh. -/
theorem Course.runFrom_consult (steady : ∀ c ∈ s.monitor.channels, c.handler.Steady) (times : ∀ o ∈ group, o.t = t)
    (mild : ∀ o ∈ group, ∃ action, s.monitor.reply s.tally.world t y o = some action ∧ action.Mild) :
    (consult t y group verdict).runFrom s =
      (.ok (verdict.mild s.monitor s.tally.world t y group), s.consulted t y group) := by
  induction group generalizing s verdict with
  | nil =>
    rw [Session.consulted_nil]
    simp [consult, Verdict.mild]
  | cons o rest ih =>
    obtain ⟨action, replied, answered⟩ := mild o List.mem_cons_self
    rw [consult_cons steady (times o List.mem_cons_self) replied answered, ih]
    · rw [Session.consulted_consulted, Verdict.mild_cons replied]
      rfl
    · exact Monitor.steady_dealt steady
    · exact fun o' mem => times o' (List.mem_cons_of_mem o mem)
    · intro o' mem
      rw [Session.consulted, Monitor.reply_dealt]
      exact mild o' (List.mem_cons_of_mem o mem)

end

end Trajectory
