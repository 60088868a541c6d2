import Mathlib.Tactic
import Trajectory.Proofs.Consultation

/-!
Which members of a group are asked, and what they decide together.

Members are asked in turn (`Asked`): up to the first one that interrupts, or all of them (`Heeds`). Each answer adds to
the verdict (`Verdict.hear`), and the session changes by the calls of the handlers, by an acknowledgement for each of
them, and by the entries about the questions and answers (`Session.exchanged`). `Course.consult_ok` says so of whatever
the members answer. What they decide can be read off the last answer, if it interrupts, and off all of them otherwise
(`Heeds.decides`). If all answers are mild, every member has given one (`Course.replied_of_consult`).
-/

namespace Trajectory

open Effect

variable {ω : Type}

/-- Handlers that are asked in turn about some occurrences, all at one time and state, and their answers. The caller's
state goes through these calls and no others. -/
inductive Asked (handlers : List (Handler ω Rat)) (t : Rat) (y : State Rat) :
    List (Occurrence Rat × Action) → ω → ω → Prop where
  | nobody {w} : Asked handlers t y [] w w
  | next {o action rest handler w w' w''} (registered : handlers[o.index]? = some handler)
      (answered : (handler.eventOccurred t y o.increasing).runFrom w = (.ok action, w'))
      (others : Asked handlers t y rest w' w'') : Asked handlers t y ((o, action) :: rest) w w''

/-- Those members of a group that are asked, with their answers: as many of the first members as it takes until one
interrupts, or all if none does. -/
structure Heeds (group : List (Occurrence Rat)) (asked : List (Occurrence Rat × Action)) : Prop where
  initial : asked.map Prod.fst <+: group
  /-- Only the last one may interrupt. -/
  earlier : ∀ a ∈ asked.dropLast, a.2.interrupts = false
  whole : (∀ a ∈ asked, a.2.interrupts = false) → asked.map Prod.fst = group

/-- A verdict with one more answer. -/
def Verdict.hear (handlers : List (Handler ω Rat)) (verdict : Verdict ω Rat) : Occurrence Rat × Action → Verdict ω Rat
  | (_, .stop) => .stop
  | (o, .resetState) =>
    match handlers[o.index]? with
    | some handler => .replace o.index handler
    | none => verdict
  | (_, .resetDerivatives) => .restart
  | (_, .carryOn) => verdict

/-- The handlers of the channels of a monitor. -/
def Monitor.handlers (m : Monitor ω Rat) : List (Handler ω Rat) := m.channels.map Channel.handler

/-- The entries about some members of a group that are asked at a state, and about their answers. -/
def Journal.exchange (y : State Rat) (asked : List (Occurrence Rat × Action)) : Journal Rat :=
  asked.flatMap fun (o, action) => [.asked o y, .answered o.index action]

/-- A session after some members of a group have answered, and left the caller with a state. -/
def Session.exchanged (s : Session ω Rat) (t : Rat) (y : State Rat) (asked : List (Occurrence Rat × Action))
    (world : ω) : Session ω Rat :=
  { s with
    tally := { s.tally with world := world }
    monitor := s.monitor.dealt t (asked.map Prod.fst)
    latestEntries := (Journal.exchange y asked).reverse ++ s.latestEntries }

section

variable {s s' : Session ω Rat} {m : Monitor ω Rat} {handlers : List (Handler ω Rat)} {t : Rat} {y : State Rat}
  {o : Occurrence Rat} {action : Action} {group rest : List (Occurrence Rat)}
  {asked later : List (Occurrence Rat × Action)} {verdict v : Verdict ω Rat} {w w' w'' : ω}

theorem Action.Mild.goesOn (mild : action.Mild) : action.interrupts = false := by
  rcases mild with rfl | rfl
  · rfl
  · rfl

theorem Heeds.nil : Heeds [] [] := ⟨List.prefix_rfl, by simp, fun _ => rfl⟩

theorem Heeds.goesOn (goes : action.interrupts = false) (heeds : Heeds rest asked) :
    Heeds (o :: rest) ((o, action) :: asked) := by
  refine ⟨List.cons_prefix_cons.mpr ⟨rfl, heeds.initial⟩, fun a mem => ?_, fun goOn => ?_⟩
  · cases asked with
    | nil => simp at mem
    | cons next others =>
      rw [List.dropLast_cons_cons] at mem
      rcases List.mem_cons.mp mem with rfl | mem
      · exact goes
      · exact heeds.earlier a mem
  · exact congrArg (o :: ·) (heeds.whole fun a mem => goOn a (List.mem_cons_of_mem _ mem))

theorem Heeds.cutOff (interrupts : action.interrupts = true) : Heeds (o :: rest) [(o, action)] := by
  refine ⟨List.cons_prefix_cons.mpr ⟨rfl, List.nil_prefix⟩, by simp, fun goOn => ?_⟩
  cases (goOn _ (List.mem_singleton.mpr rfl)).symm.trans interrupts

theorem Heeds.tail (goes : action.interrupts = false) (heeds : Heeds (o :: rest) ((o, action) :: asked)) :
    Heeds rest asked := by
  refine ⟨(List.cons_prefix_cons.mp heeds.initial).2, fun a mem => ?_, fun goOn => ?_⟩
  · cases asked with
    | nil => simp at mem
    | cons next others =>
      refine heeds.earlier a ?_
      rw [List.dropLast_cons_cons]
      exact List.mem_cons_of_mem _ mem
  · exact (List.cons.inj (heeds.whole (List.forall_mem_cons.mpr ⟨goes, goOn⟩))).2

theorem Heeds.alone (interrupts : action.interrupts = true) (heeds : Heeds group ((o, action) :: asked)) :
    asked = [] := by
  cases asked with
  | nil => rfl
  | cons next others => cases (heeds.earlier (o, action) List.mem_cons_self).symm.trans interrupts

/-- Somebody is asked, and the first one is the first member. -/
theorem Heeds.first (heeds : Heeds (o :: rest) asked) : ∃ action others, asked = (o, action) :: others := by
  cases asked with
  | nil => cases heeds.whole (by simp)
  | cons a others =>
    obtain ⟨same, _⟩ := List.cons_prefix_cons.mp heeds.initial
    exact ⟨a.2, others, by rw [← same]⟩

/-- How the members answer determines which of them are asked. -/
theorem Heeds.unique {asked' : List (Occurrence Rat × Action)} (heeds : Heeds group asked) (heeds' : Heeds group asked')
    (agree : ∀ a ∈ asked, ∀ a' ∈ asked', a.1 = a'.1 → a.2 = a'.2) : asked = asked' := by
  induction group generalizing asked asked' with
  | nil =>
    rw [List.map_eq_nil_iff.mp (List.prefix_nil.mp heeds.initial),
      List.map_eq_nil_iff.mp (List.prefix_nil.mp heeds'.initial)]
  | cons o rest ih =>
    obtain ⟨action, others, rfl⟩ := heeds.first
    obtain ⟨action', others', rfl⟩ := heeds'.first
    obtain rfl : action = action' := agree _ List.mem_cons_self _ List.mem_cons_self rfl
    cases interrupts : action.interrupts with
    | true => rw [heeds.alone interrupts, heeds'.alone interrupts]
    | false =>
      rw [ih (heeds.tail interrupts) (heeds'.tail interrupts) fun a mem a' mem' =>
        agree a (List.mem_cons_of_mem _ mem) a' (List.mem_cons_of_mem _ mem')]

/-- Answers that do not interrupt ask for stepping to start afresh if one of them does. -/
theorem Verdict.hear_mild (handlers : List (Handler ω Rat)) (verdict : Verdict ω Rat)
    (mild : ∀ a ∈ asked, a.2.interrupts = false) :
    asked.foldl (hear handlers) verdict = if ∃ a ∈ asked, a.2 = .resetDerivatives then .restart else verdict := by
  induction asked generalizing verdict with
  | nil => simp
  | cons a others ih =>
    rw [List.foldl_cons, ih _ fun a mem => mild a (List.mem_cons_of_mem _ mem)]
    obtain ⟨o, action⟩ := a
    have goes := mild (o, action) List.mem_cons_self
    cases action with
    | stop | resetState => cases goes
    | carryOn => simp only [hear, List.exists_mem_cons_iff, reduceCtorEq, false_or]
    | resetDerivatives => simp only [hear, List.exists_mem_cons_iff, true_or, if_true, ite_self]

theorem Asked.registered (exchange : Asked handlers t y asked w w') {a : Occurrence Rat × Action} (mem : a ∈ asked) :
    ∃ handler, handlers[a.1.index]? = some handler ∧ (handler.eventOccurred t y a.1.increasing).Returns a.2 := by
  induction exchange with
  | nobody => exact absurd mem List.not_mem_nil
  | next registered answered _ ih =>
    rcases List.mem_cons.mp mem with rfl | mem
    · exact ⟨_, registered, returns_of_runFrom answered⟩
    · exact ih mem

/-- What the members of a group that are asked decide together: what the last one demands if it interrupts, and
otherwise that stepping starts afresh, if one of them demands it. -/
theorem Heeds.decides (heeds : Heeds group asked) (exchange : Asked handlers t y asked w w') :
    (∃ o, asked.getLast? = some (o, .stop) ∧ asked.foldl (Verdict.hear handlers) .carryOn = .stop) ∨
    (∃ o handler, asked.getLast? = some (o, .resetState) ∧ handlers[o.index]? = some handler ∧
      asked.foldl (Verdict.hear handlers) .carryOn = .replace o.index handler) ∨
    ((∀ a ∈ asked, a.2.interrupts = false) ∧
      asked.foldl (Verdict.hear handlers) .carryOn =
        if ∃ a ∈ asked, a.2 = .resetDerivatives then .restart else .carryOn) := by
  have calm (mild : ∀ a ∈ asked, a.2.interrupts = false) := And.intro mild (Verdict.hear_mild handlers .carryOn mild)
  rcases asked.eq_nil_or_concat with rfl | ⟨before, ⟨o, action⟩, rfl⟩
  · exact Or.inr (Or.inr (calm (by simp)))
  rw [List.concat_eq_append] at *
  have earlier := heeds.earlier
  rw [List.dropLast_concat] at earlier
  cases action with
  | stop => exact Or.inl ⟨o, List.getLast?_concat, List.foldl_concat ..⟩
  | resetState =>
    obtain ⟨handler, registered, _⟩ := exchange.registered (List.mem_append_right before (List.mem_singleton.mpr rfl))
    refine Or.inr (Or.inl ⟨o, handler, List.getLast?_concat, registered, ?_⟩)
    rw [List.foldl_concat, Verdict.hear, registered]
  | carryOn | resetDerivatives =>
    refine Or.inr (Or.inr (calm fun a mem => ?_))
    rcases List.mem_append.mp mem with mem | mem
    · exact earlier a mem
    · rw [List.mem_singleton.mp mem]
      rfl

theorem Monitor.handlers_dealt (m : Monitor ω Rat) (t : Rat) (group : List (Occurrence Rat)) :
    (m.dealt t group).handlers = m.handlers := by
  apply List.ext_getElem?
  intro i
  rw [handlers, handlers, List.getElem?_map, List.getElem?_map, channels_dealt, Option.map_map]
  congr 1
  funext c
  dsimp only [Function.comp]
  split
  · rfl
  · rfl

theorem Session.exchanged_exchanged (s : Session ω Rat) :
    (s.exchanged t y asked w).exchanged t y later w' = s.exchanged t y (asked ++ later) w' := by
  simp only [exchanged, Monitor.dealt_dealt, Journal.exchange, List.map_append, List.flatMap_append,
    List.reverse_append, List.append_assoc]

theorem Session.journal_exchanged (s : Session ω Rat) :
    (s.exchanged t y asked w).journal = s.journal ++ Journal.exchange y asked := by
  rw [journal, exchanged, List.reverse_append, List.reverse_reverse]
  rfl

theorem Session.exchanged_nil (s : Session ω Rat) (t : Rat) (y : State Rat) : s.exchanged t y [] s.tally.world = s :=
  s.consulted_nil t y

/-- A member of a group that is asked has a handler, which answers. Either it interrupts, or the others are asked. -/
theorem Course.consult_cons_ok (time : o.t = t)
    (ran : (consult t y (o :: rest) verdict).runFrom s = (.ok v, s')) :
    ∃ handler action w, s.monitor.handlers[o.index]? = some handler ∧
      (handler.eventOccurred t y o.increasing).runFrom s.tally.world = (.ok action, w) ∧
      if action.interrupts = true then
        v = verdict.hear s.monitor.handlers (o, action) ∧ s' = s.exchanged t y [(o, action)] w
      else
        (consult t y rest (verdict.hear s.monitor.handlers (o, action))).runFrom (s.exchanged t y [(o, action)] w) =
          (.ok v, s') := by
  rw [consult, runFrom_bind, runFrom_get] at ran
  dsimp only at ran
  cases watched : s.monitor.channels[o.index]? with
  | none =>
    rw [watched] at ran
    cases ran
  | some c =>
    have registered : s.monitor.handlers[o.index]? = some c.handler := by
      rw [Monitor.handlers, List.getElem?_map, watched, Option.map_some]
    rw [watched] at ran
    dsimp only at ran
    rw [runFrom_bind, Session.runFrom_note] at ran
    dsimp only at ran
    obtain ⟨action, _, answered, ran⟩ := runFrom_bind_ok.mp ran
    obtain ⟨w, called, rfl⟩ := Session.outside_ok.mp answered
    rw [runFrom_bind, Session.runFrom_note, time] at ran
    dsimp only at ran
    obtain ⟨_, _, acknowledged, ran⟩ := runFrom_bind_ok.mp ran
    cases acknowledged.symm.trans (Session.runFrom_onMonitor (Monitor.acknowledge_dealt watched w))
    refine ⟨c.handler, action, w, registered, called, ?_⟩
    cases action with
    | stop =>
      cases ran
      exact ⟨rfl, rfl⟩
    | resetState =>
      cases ran
      exact ⟨by rw [Verdict.hear, registered], rfl⟩
    | resetDerivatives | carryOn => exact ran

/-- The members of a group are asked up to the first one that interrupts, and decide what their answers add up to. -/
theorem Course.consult_ok (times : ∀ o ∈ group, o.t = t)
    (ran : (consult t y group verdict).runFrom s = (.ok v, s')) :
    ∃ asked w, Asked s.monitor.handlers t y asked s.tally.world w ∧ Heeds group asked ∧
      s' = s.exchanged t y asked w ∧ v = asked.foldl (Verdict.hear s.monitor.handlers) verdict := by
  induction group generalizing s verdict with
  | nil =>
    cases ran
    exact ⟨[], _, .nobody, .nil, (Session.exchanged_nil _ t y).symm, rfl⟩
  | cons o rest ih =>
    obtain ⟨handler, action, w, registered, answered, goes⟩ := consult_cons_ok (times o List.mem_cons_self) ran
    by_cases interrupts : action.interrupts = true
    · rw [if_pos interrupts] at goes
      exact ⟨_, w, .next registered answered .nobody, .cutOff interrupts, goes.2, goes.1⟩
    · rw [if_neg interrupts] at goes
      obtain ⟨asked, w', exchange, heeds, rfl, rfl⟩ := ih (fun o mem => times o (List.mem_cons_of_mem _ mem)) goes
      have same : (s.exchanged t y [(o, action)] w).monitor.handlers = s.monitor.handlers :=
        s.monitor.handlers_dealt t [o]
      rw [same] at exchange ⊢
      refine ⟨(o, action) :: asked, w', .next registered answered exchange,
        .goesOn (Bool.eq_false_of_not_eq_true interrupts) heeds, ?_, rfl⟩
      rw [Session.exchanged_exchanged]
      rfl

/-- The answers of steady handlers do not depend on when they are asked. -/
theorem Asked.replied (steady : ∀ c ∈ m.channels, c.handler.Steady) (exchange : Asked m.handlers t y asked w w')
    {a : Occurrence Rat × Action} (mem : a ∈ asked) : m.reply w'' t y a.1 = some a.2 := by
  obtain ⟨handler, registered, _, _, answered⟩ := exchange.registered mem
  rw [Monitor.handlers, List.getElem?_map, Option.map_eq_some_iff] at registered
  obtain ⟨c, watched, rfl⟩ := registered
  obtain ⟨_, always⟩ := ((steady c (List.mem_of_getElem? watched)).eventOccurred t y a.1.increasing).runFrom answered
  rw [Monitor.reply, watched, Option.bind_some, always]
  rfl

/-- If a group has been consulted and all answers are mild, each of its members has given one. -/
theorem Course.replied_of_consult (steady : ∀ c ∈ s.monitor.channels, c.handler.Steady) (times : ∀ o ∈ group, o.t = t)
    (ran : (consult t y group verdict).runFrom s = (.ok v, s'))
    (mild : ∀ index action, .answered index action ∈ s'.latestEntries → action.Mild) :
    ∀ o ∈ group, ∃ action, s.monitor.reply s.tally.world t y o = some action ∧ action.Mild := by
  obtain ⟨asked, w, exchange, heeds, rfl, _⟩ := consult_ok times ran
  have answered : ∀ a ∈ asked, a.2.Mild := by
    intro a mem
    refine mild a.1.index a.2 (List.mem_append_left _ (List.mem_reverse.mpr ?_))
    exact List.mem_flatMap.mpr ⟨a, mem, by simp⟩
  rw [← heeds.whole fun a mem => (answered a mem).goesOn]
  intro o mem
  obtain ⟨a, listed, rfl⟩ := List.mem_map.mp mem
  exact ⟨a.2, exchange.replied steady listed, answered a listed⟩

end

end Trajectory
