import Mathlib.Tactic
import Trajectory.Proofs.Engine

/-!
What a run does about a group of events.

`Consulted` lists the questions and answers of a group: the members are asked in their order, up to
the first one that replaces the state or stops the run. `Moves.reaction` takes a run that returns
apart at a group that it has located: the questions and answers come first, then the piece up to the
event is accepted, and whatever is asked afterwards lies strictly behind the event (`moves_behind`).
-/

namespace Trajectory

open Session

variable {ω : Type}

/-- A registered handler may answer to an event with an action. -/
def Answers (watches : List (Handler ω Rat × Settings Rat)) (t : Rat) (y : State Rat) (o : Occurrence Rat)
    (action : Action) : Prop :=
  ∃ watch, watches[o.index]? = some watch ∧ (watch.1.eventOccurred t y o.increasing).Returns action

/-- A verdict with the answer of a member that does not interrupt. -/
def Verdict.after (verdict : Verdict ω Rat) : Action → Verdict ω Rat
  | .resetDerivatives => .restart
  | _ => verdict

/-- The entries in the journal for some members of a group that are asked at a state, and what they
have decided, given what others decided before them. -/
inductive Consulted (answers : Occurrence Rat → Action → Prop) (y : State Rat) :
    List (Occurrence Rat) → Verdict ω Rat → List (Entry Rat) → Verdict ω Rat → Prop where
  /-- Nobody is left. -/
  | nobody {verdict} : Consulted answers y [] verdict [] verdict
  /-- A member does not interrupt. -/
  | heard {o action rest verdict entries decided} (answer : answers o action) (goes : action.interrupts = false)
      (others : Consulted answers y rest (verdict.after action) entries decided) :
      Consulted answers y (o :: rest) verdict (.asked o y :: .answered o.index action :: entries) decided
  /-- A member interrupts, and the others are not asked. -/
  | cutOff {o action rest verdict decided} (answer : answers o action) (interrupts : action.interrupts = true)
      (final : decided.isStop = (action == .stop)) :
      Consulted answers y (o :: rest) verdict [.asked o y, .answered o.index action] decided

/-- Entries that put events to handlers only if these were reported in a window that starts at a
time or behind it. -/
def Journal.Behind [Spacing Rat] (course : Course ω Rat) (watches : List (Handler ω Rat × Settings Rat)) (t : Rat)
    (later : Journal Rat) : Prop :=
  ∀ o y, .asked o y ∈ later → ∃ window : Window Rat, NotAfter course.forward t window.start ∧
    o.Reported watches course.forward window o.t

section

variable [Spacing Rat] {course : Course ω Rat} {watches : List (Handler ω Rat × Settings Rat)} {t0 t : Rat}
  {y : State Rat} {s s' u : Session ω Rat} {cut : Cut}

theorem not_move_ended {p : Stage ω × Session ω Rat} : ¬ Move course (.ended t y, s) p := fun move => by cases move

theorem Moves.over {p : Stage ω} (path : Moves course (.ended t y, s) (p, u)) : p = .ended t y ∧ u = s := by
  rcases Relation.ReflTransGen.cases_head path with same | ⟨_, move, _⟩
  · cases same
    exact ⟨rfl, rfl⟩
  · exact absurd move not_move_ended

/-- A path to the end of a run begins with a move, from any stage but the end. -/
theorem Moves.begins {p : Stage ω} (path : Moves course (p, s) (.ended t y, u)) (going : p ≠ .ended t y) :
    ∃ q s', Move course (p, s) (q, s') ∧ Moves course (q, s') (.ended t y, u) := by
  rcases Relation.ReflTransGen.cases_head path with same | ⟨⟨q, s'⟩, move, rest⟩
  · exact absurd (congrArg Prod.fst same) going
  · exact ⟨q, s', move, rest⟩

/-- A path of moves keeps the run on its route. -/
theorem onRoute_moves {p q : Stage ω} (directed : course.Directed watches t0) (path : Moves course (p, s) (q, u))
    (route : p.OnRoute course watches t0 s.monitor) : q.OnRoute course watches t0 u.monitor :=
  path.preserve (P := fun q u => q.OnRoute course watches t0 u.monitor) route
    fun _ _ _ _ route move => onRoute_move directed move route

/-- The members of a group are asked up to the first one that interrupts. -/
theorem consulted {members : List (Occurrence Rat)} {verdict : Verdict ω Rat} (directed : course.Directed watches t0)
    (route : (Stage.asking cut members verdict).OnRoute course watches t0 s.monitor)
    (path : Moves course (.asking cut members verdict, s) (.ended t y, u)) :
    ∃ entries decided s',
      Consulted (Answers watches cut.piece.stop cut.piece.yStop) cut.piece.yStop members verdict entries decided ∧
      s'.journal = s.journal ++ entries ∧ Moves course (.asking cut members verdict, s) (.asking cut [] decided, s') ∧
      Moves course (.asking cut [] decided, s') (.ended t y, u) := by
  induction members generalizing verdict s with
  | nil => exact ⟨[], verdict, s, .nobody, (List.append_nil _).symm, .refl, path⟩
  | cons o rest ih =>
    obtain ⟨_, s₁, told, path⟩ := path.begins (fun same => by cases same)
    have registered := onRoute_move directed told route
    cases told with
    | @ask _ _ _ _ channel _ watched =>
      obtain ⟨_, s₂, replied, path⟩ := path.begins (fun same => by cases same)
      have route' := onRoute_move directed replied registered
      obtain ⟨_, _, ⟨settings, at_⟩, _⟩ := registered
      have journal : ∃ action, s₂.journal = s.journal ++ [.asked o cut.piece.yStop, .answered o.index action] ∧
          Answers watches cut.piece.stop cut.piece.yStop o action ∧
          (cut.answered o channel.handler rest verdict action).OnRoute course watches t0 s₂.monitor ∧
          Moves course (.asking cut (o :: rest) verdict, s) (cut.answered o channel.handler rest verdict action, s₂) ∧
          Moves course (cut.answered o channel.handler rest verdict action, s₂) (.ended t y, u) := by
        cases replied with
        | @answer _ _ _ _ _ action _ _ _ answered acknowledged =>
          obtain ⟨_, called, _⟩ := outside_ok.mp answered
          refine ⟨action, ?_, ⟨_, at_, Effect.returns_of_runFrom called⟩, route',
            .head (.ask watched) (.single (.answer answered acknowledged)), path⟩
          rw [journal_answered answered acknowledged, journal_noted, List.append_assoc]
          rfl
      obtain ⟨action, journal, answer, route', first, path⟩ := journal
      have heard : ∀ goes : action.interrupts = false, cut.answered o channel.handler rest verdict action =
          .asking cut rest (verdict.after action) := by
        intro goes
        cases action with
        | carryOn | resetDerivatives => rfl
        | resetState | stop => cases goes
      cases interrupts : action.interrupts with
      | false =>
        rw [heard interrupts] at route' path first
        obtain ⟨entries, decided, s', others, grown, later, path⟩ := ih route' path
        exact ⟨_, decided, s', .heard answer interrupts others, by rw [grown, journal, List.append_assoc]; rfl,
          first.trans later, path⟩
      | true =>
        cases action with
        | carryOn | resetDerivatives => cases interrupts
        | resetState => exact ⟨_, _, s₂, .cutOff answer rfl rfl, journal, first, path⟩
        | stop => exact ⟨_, _, s₂, .cutOff answer rfl rfl, journal, first, path⟩

/-- Once all has been decided, the piece is accepted and handed to the observers. -/
theorem accepted_of_asked {verdict : Verdict ω Rat} (path : Moves course (.asking cut [] verdict, s) (.ended t y, u)) :
    ∃ last s', s'.journal = s.journal ++ [.accepted cut.piece last] ∧
      Moves course (.asking cut [] verdict, s) (.told cut verdict, s') ∧
      Moves course (.told cut verdict, s') (.ended t y, u) := by
  obtain ⟨_, _, move, path⟩ := path.begins (fun same => by cases same)
  cases move with
  | decide =>
    obtain ⟨_, _, move, path⟩ := path.begins (fun same => by cases same)
    cases move with
    | accept affordable =>
      obtain ⟨_, s', move, path⟩ := path.begins (fun same => by cases same)
      cases move with
      | tell told =>
        refine ⟨verdict.isStop || cut.atEnd, s', ?_, .head .decide (.head (.accept affordable) (.single (.tell told))),
          path⟩
        rw [(sameAccount_onObservers told).journal, journal_counted]

theorem Journal.Behind.nil : Journal.Behind course watches t [] := fun _ _ mem => absurd mem List.not_mem_nil

theorem Journal.Behind.append {j j' : Journal Rat} (first : Journal.Behind course watches t j)
    (second : Journal.Behind course watches t j') : Journal.Behind course watches t (j ++ j') :=
  fun o y mem => (List.mem_append.mp mem).elim (first o y) (second o y)

theorem Journal.Behind.single {e : Entry Rat} (silent : e.notification? = none) :
    Journal.Behind course watches t [e] := by
  intro o y mem
  rw [← List.mem_singleton.mp mem] at silent
  cases silent

private theorem behind_of_writes {p : Stage ω} {e : Entry Rat} (route : p.OnRoute course watches t0 s.monitor)
    (writes : p.Writes e) : Journal.Behind course watches t0 [e] := by
  cases writes with
  | @asked cut =>
    intro o y mem
    cases List.mem_singleton.mp mem
    obtain ⟨fits, _, _, reported⟩ := route
    have own := reported _ List.mem_cons_self
    exact ⟨cut.window, fits.covers.begun, own.time ▸ own⟩
  | _ => exact .single rfl

/-- What a run on its route adds to the journal concerns what lies behind the initial time. -/
theorem moves_behind {p q : Stage ω} (directed : course.Directed watches t0) (path : Moves course (p, s) (q, u))
    (route : p.OnRoute course watches t0 s.monitor) :
    ∃ later, u.journal = s.journal ++ later ∧ Journal.Behind course watches t0 later := by
  have all := path.preserve
    (P := fun q u => q.OnRoute course watches t0 u.monitor ∧
      ∃ later, u.journal = s.journal ++ later ∧ Journal.Behind course watches t0 later)
    ⟨route, [], (List.append_nil _).symm, .nil⟩
    fun p s q s' ⟨route, later, journal, behind⟩ move => by
      refine ⟨onRoute_move directed move route, ?_⟩
      rcases move.journal with same | ⟨e, grown, writes⟩
      · exact ⟨later, same.trans journal, behind⟩
      · exact ⟨later ++ [e], by rw [grown, journal, List.append_assoc],
          behind.append (behind_of_writes route writes)⟩
  exact all.2

private theorem behind_of_restarting {z : State Rat} {t₁ : Rat} {atEnd : Bool} (directed : course.Directed watches t0)
    (route : (Stage.restarting t₁ z atEnd : Stage ω).OnRoute course watches t0 s.monitor)
    (path : Moves course (.restarting t₁ z atEnd, s) (.ended t y, u)) :
    ∃ later, u.journal = s.journal ++ later ∧ Journal.Behind course watches t₁ later := by
  obtain ⟨q, s₁, move, path⟩ := path.begins (fun same => by cases same)
  have journal : s₁.journal = s.journal := by
    cases move with
    | refresh committed => exact (sameAccount_onMonitor committed).journal
  have route' := onRoute_move directed move route
  rw [← journal]
  cases move with
  | refresh committed =>
    cases atEnd with
    | true =>
      obtain ⟨_, rfl⟩ := path.over
      exact ⟨[], (List.append_nil _).symm, .nil⟩
    | false =>
      have directed' : course.Directed watches t₁ := ⟨route'.2.1, directed.size, directed.valid⟩
      exact moves_behind directed' path ⟨.refl, route'.2⟩

/-- Behind an accepted piece, all that follows lies behind its end. A verdict to stop ends the run
there. -/
theorem behind_of_told {verdict : Verdict ω Rat} (directed : course.Directed watches t0)
    (route : (Stage.told cut verdict).OnRoute course watches t0 s.monitor)
    (path : Moves course (.told cut verdict, s) (.ended t y, u)) :
    (∃ later, u.journal = s.journal ++ later ∧ Journal.Behind course watches cut.piece.stop later) ∧
      (verdict.isStop = true → t = cut.piece.stop ∧ u.journal = s.journal ++ [.stopped cut.piece.stop]) := by
  obtain ⟨q, s₁, move, path⟩ := path.begins (fun same => by cases same)
  have route' := onRoute_move directed move route
  have single : ∀ e : Entry Rat, (Stage.told cut verdict).Writes e →
      Journal.Behind course watches cut.piece.stop [e] := by
    intro e writes
    cases writes <;> exact .single rfl
  cases move with
  | stop =>
    obtain ⟨same, rfl⟩ := path.over
    cases same
    exact ⟨⟨_, journal_noted s _, single _ .stopped⟩, fun _ => ⟨rfl, journal_noted s _⟩⟩
  | replace reset fits =>
    obtain ⟨later, journal, behind⟩ := behind_of_restarting directed route' path
    rw [journal_noted, (sameAccount_onTally reset).journal, List.append_assoc] at journal
    exact ⟨⟨_, journal, (single _ .replaced).append behind⟩, fun stop => by cases stop⟩
  | restart =>
    exact ⟨behind_of_restarting directed route' path, fun stop => by cases stop⟩
  | resume committed resumed =>
    refine ⟨?_, fun stop => by cases stop⟩
    rw [← (sameAccount_onMonitor committed).journal]
    cases resumed with
    | ended whole last =>
      obtain ⟨_, rfl⟩ := path.over
      exact ⟨[], (List.append_nil _).symm, .nil⟩
    | stepping whole more =>
      have directed' : course.Directed watches cut.piece.stop := ⟨route'.2.1, directed.size, directed.valid⟩
      exact moves_behind directed' path ⟨.refl, route'.2⟩
    | scanning inner narrowed =>
      obtain ⟨_, start, _, _, _⟩ := Window.restrict_ok narrowed
      obtain ⟨covers, kept⟩ := route'
      have ahead := covers.ahead.trans_notAfter covers.stop_notAfter
      rw [start] at ahead
      have directed' : course.Directed watches cut.piece.stop := ⟨ahead, directed.size, directed.valid⟩
      refine moves_behind directed' path ⟨⟨covers.step, ?_, covers.ahead, covers.stop, covers.last, covers.more⟩, kept⟩
      rw [start]
      exact .refl

/-- A run that returns, taken apart at a group it has located: the members are asked, the piece up
to the event is accepted, and all that follows lies behind the event. A member that stops the run
ends it there. -/
theorem reaction_of_located {leg : Leg Rat} {window : Window Rat} {first : Occurrence Rat}
    {rest : List (Occurrence Rat)} (directed : course.Directed watches t0)
    (route : (Stage.located leg window first rest : Stage ω).OnRoute course watches t0 s.monitor)
    (path : Moves course (.located leg window first rest, s) (.ended t y, u)) :
    ∃ piece entries decided last later, piece.stop = first.t ∧
      Consulted (Answers watches piece.stop piece.yStop) piece.yStop (first :: rest) (.carryOn : Verdict ω Rat) entries
        decided ∧
      u.journal = s.journal ++ (entries ++ .accepted piece last :: later) ∧
      Journal.Behind course watches first.t later ∧
      (decided.isStop = true → t = first.t ∧ later = [.stopped first.t]) := by
  obtain ⟨q, s₁, move, path⟩ := path.begins (fun same => by cases same)
  have route' := onRoute_move directed move route
  cases move with
  | @cut _ _ _ _ _ piece truncated =>
    obtain ⟨_, _, stop, _, _⟩ := Window.truncate_ok truncated
    obtain ⟨entries, decided, s₂, consulting, asked, path₁, path⟩ := consulted directed route' path
    obtain ⟨last, s₃, accepted, path₂, path⟩ := accepted_of_asked path
    have told := onRoute_moves directed (path₁.trans path₂) route'
    obtain ⟨⟨later, journal, behind⟩, stopping⟩ := behind_of_told directed told path
    rw [← stop]
    have whole : u.journal = s.journal ++ (entries ++ .accepted piece last :: later) := by
      rw [journal, accepted, asked]
      simp only [List.append_assoc, List.singleton_append]
    refine ⟨piece, entries, decided, last, later, rfl, consulting, whole, behind, fun stops => ?_⟩
    obtain ⟨time, ended⟩ := stopping stops
    exact ⟨time, List.append_cancel_left (journal.symm.trans ended)⟩

/-- A path whose journal has a located group leads through the scan that has located it. -/
theorem Moves.located {before after : Journal Rat} {window : Window Rat} {group : List (Occurrence Rat)}
    {y0 : State Rat} (path : Moves course (.opening t0 y0, s) (.ended t y, u)) (empty : s.journal = [])
    (entries : u.journal = before ++ .located window group :: after) :
    ∃ leg first rest s₁ s₂, group = first :: rest ∧ Moves course (.opening t0 y0, s) (.scanning leg window, s₁) ∧
      s₁.journal = before ∧ (Course.scan window).runFrom s₁ = (.ok (first :: rest), s₂) ∧
      Moves course (.located leg window first rest, s₂.noted (.located window (first :: rest))) (.ended t y, u) := by
  obtain ⟨p₁, s₁, p₂, s₂, earlier, short, writes, move, long, later⟩ := path.split empty entries
  cases writes with
  | @located leg =>
    cases move with
    | clear scanned =>
      rw [(sameAccount_scan scanned).journal, short] at long
      simp at long
    | locate scanned =>
      rw [journal_noted, (sameAccount_scan scanned).journal, short] at long
      cases List.append_cancel_left long
      exact ⟨leg, _, _, s₁, _, rfl, earlier, short, scanned, later⟩

/-- A group in the journal of a run that returns: the scan that has located it, and what the run
does about it. -/
theorem Moves.reaction {before after : Journal Rat} {window : Window Rat} {group : List (Occurrence Rat)}
    {y0 : State Rat} (directed : course.Directed watches t0)
    (path : Moves course (.opening t0 y0, s) (.ended t y, u))
    (created : s.monitor.channels = (Monitor.create watches).channels) (empty : s.journal = [])
    (entries : u.journal = before ++ .located window group :: after) :
    ∃ leg first rest s₁ s₂ piece replies decided last later, group = first :: rest ∧
      Moves course (.opening t0 y0, s) (.scanning leg window, s₁) ∧ s₁.journal = before ∧
      (Course.scan window).runFrom s₁ = (.ok (first :: rest), s₂) ∧
      (Stage.located leg window first rest : Stage ω).OnRoute course watches t0 s₂.monitor ∧
      Consulted (Answers watches piece.stop piece.yStop) piece.yStop (first :: rest) (.carryOn : Verdict ω Rat) replies
        decided ∧
      after = replies ++ .accepted piece last :: later ∧ Journal.Behind course watches first.t later ∧
      (decided.isStop = true → t = first.t) := by
  obtain ⟨leg, first, rest, s₁, s₂, rfl, earlier, short, scanned, path⟩ := path.located empty entries
  have route := onRoute_move directed (.locate scanned) (onRoute_moves directed earlier ⟨rfl, created⟩)
  obtain ⟨piece, replies, decided, last, later, _, consulted, whole, behind, stopping⟩ :=
    reaction_of_located directed route path
  refine ⟨leg, first, rest, s₁, s₂, piece, replies, decided, last, later, rfl, earlier, short, scanned, route,
    consulted, ?_, behind, fun stops => (stopping stops).1⟩
  rw [entries, journal_noted, (sameAccount_scan scanned).journal, short, List.append_assoc] at whole
  exact (List.cons.inj (List.append_cancel_left whole)).2

/-- What a scan has located is a group of first roots. -/
theorem Course.found_of_scan {group : List (Occurrence Rat)} {window : Window Rat}
    (scanned : (Course.scan window).runFrom s = (.ok group, s')) : s.monitor.Found window group := by
  obtain ⟨_, _, found, _, _, searched, grouped⟩ := Course.scan_ok scanned
  rw [grouped]
  exact Monitor.found_of_candidates _ searched

end

end Trajectory
