import Mathlib.Logic.Relation
import Mathlib.Tactic
import Trajectory.Proofs.Monitor
import Trajectory.Proofs.Window
import Trajectory.Run.Engine

/-!
A run as a system of transitions between stages.

A stage is a point between two things that a run does, with the data that the rest of the run
depends on. `Move` lists everything that can happen next, each as the part of the run that does it;
what a function of the caller may return is left open. A property of runs is then an invariant of the
moves (`Moves.preserve`), and an entry of the journal leads back to the move that has written it
(`Moves.split`).
-/

namespace Trajectory

variable {ω β γ : Type}

namespace Session

/-- A session with one more entry in its journal. -/
def noted (s : Session ω Rat) (e : Entry Rat) : Session ω Rat :=
  { s with latestEntries := e :: s.latestEntries }

@[simp] theorem journal_noted (s : Session ω Rat) (e : Entry Rat) :
    (s.noted e).journal = s.journal ++ [e] := by
  simp [journal, noted]

@[simp] theorem runFrom_note (s : Session ω Rat) (e : Entry Rat) :
    (note e).runFrom s = (.ok (), s.noted e) := rfl

/-- Two sessions with the same journal and the same number of accepted pieces. -/
def SameAccount (s s' : Session ω Rat) : Prop :=
  s'.latestEntries = s.latestEntries ∧ s'.accepted = s.accepted

theorem SameAccount.refl (s : Session ω Rat) : s.SameAccount s := ⟨rfl, rfl⟩

theorem SameAccount.trans {s s' s'' : Session ω Rat} (first : s.SameAccount s') (second : s'.SameAccount s'') :
    s.SameAccount s'' :=
  ⟨second.1.trans first.1, second.2.trans first.2⟩

theorem SameAccount.journal {s s' : Session ω Rat} (same : s.SameAccount s') : s'.journal = s.journal := by
  rw [Session.journal, Session.journal, same.1]

variable {s s' : Session ω Rat}

theorem sameAccount_onTally {x : Effect (Tally ω) Rat β} {r : Except (Error Rat) β}
    (ran : (onTally x).runFrom s = (r, s')) : s.SameAccount s' := by
  rw [onTally, Effect.runFrom_within, Prod.mk.injEq] at ran
  rw [← ran.2]
  exact ⟨rfl, rfl⟩

theorem sameAccount_onMonitor {x : Effect (Monitor ω Rat × ω) Rat β} {r : Except (Error Rat) β}
    (ran : (onMonitor x).runFrom s = (r, s')) : s.SameAccount s' := by
  rw [onMonitor, Effect.runFrom_within, Prod.mk.injEq] at ran
  rw [← ran.2]
  exact ⟨rfl, rfl⟩

theorem sameAccount_onObservers {x : Effect (List (Observer ω Rat) × ω) Rat β} {r : Except (Error Rat) β}
    (ran : (onObservers x).runFrom s = (r, s')) : s.SameAccount s' := by
  rw [onObservers, Effect.runFrom_within, Prod.mk.injEq] at ran
  rw [← ran.2]
  exact ⟨rfl, rfl⟩

/-- A part of a run that leaves the account alone, whether it succeeds or fails. -/
def Silent (x : Effect (Session ω Rat) Rat β) : Prop := ∀ s r s', x.runFrom s = (r, s') → s.SameAccount s'

theorem silent_pure (b : β) : Silent (pure b : Effect (Session ω Rat) Rat β) := by
  intro s r s' ran
  rw [Effect.runFrom_pure] at ran
  cases ran
  exact .refl s

theorem silent_lift (x : Except (Error Rat) β) : Silent (liftM x : Effect (Session ω Rat) Rat β) := by
  intro s r s' ran
  obtain ⟨_, rfl⟩ := Effect.runFrom_lift_iff.mp ran
  exact .refl s'

theorem silent_bind {x : Effect (Session ω Rat) Rat β} {f : β → Effect (Session ω Rat) Rat γ} (first : Silent x)
    (rest : ∀ b, Silent (f b)) : Silent (x >>= f) := by
  intro s r s'' ran
  cases r with
  | ok c =>
    obtain ⟨b, s', ranX, ranF⟩ := Effect.runFrom_bind_ok.mp ran
    exact (first s _ s' ranX).trans (rest b s' _ s'' ranF)
  | error e =>
    rcases Effect.runFrom_bind_error.mp ran with failed | ⟨b, s', ranX, ranF⟩
    · exact first s _ s'' failed
    · exact (first s _ s' ranX).trans (rest b s' _ s'' ranF)

theorem silent_onTally (x : Effect (Tally ω) Rat β) : Silent (onTally x) := fun _ _ _ => sameAccount_onTally

theorem silent_onMonitor (x : Effect (Monitor ω Rat × ω) Rat β) : Silent (onMonitor x) :=
  fun _ _ _ => sameAccount_onMonitor

theorem silent_onObservers (x : Effect (List (Observer ω Rat) × ω) Rat β) : Silent (onObservers x) :=
  fun _ _ _ => sameAccount_onObservers

theorem onTally_ok {x : Effect (Tally ω) Rat β} {b : β} : (onTally x).runFrom s = (.ok b, s') ↔
    ∃ tally, x.runFrom s.tally = (.ok b, tally) ∧ s' = { s with tally := tally } :=
  Effect.runFrom_within_ok

theorem outside_ok {x : Effect ω Rat β} {b : β} : (outside x).runFrom s = (.ok b, s') ↔
    ∃ w, x.runFrom s.tally.world = (.ok b, w) ∧ s' = { s with tally := { s.tally with world := w } } := by
  rw [outside, onTally_ok]
  constructor
  · rintro ⟨tally, ran, rfl⟩
    obtain ⟨w, called, rfl⟩ := Effect.runFrom_within_ok.mp ran
    exact ⟨w, called, rfl⟩
  · rintro ⟨w, called, rfl⟩
    exact ⟨_, Effect.runFrom_within_ok.mpr ⟨w, called, rfl⟩, rfl⟩

theorem outside_error {x : Effect ω Rat β} {e : Error Rat} (failed : (outside x).runFrom s = (.error e, s')) :
    x.Raises e := by
  obtain ⟨_, failed⟩ := Effect.runFrom_within_error (show (onTally _).runFrom s = _ from failed)
  obtain ⟨_, failed⟩ := Effect.runFrom_within_error failed
  exact ⟨_, _, failed⟩

theorem onMonitor_ok {x : Effect (Monitor ω Rat × ω) Rat β} {b : β} : (onMonitor x).runFrom s = (.ok b, s') ↔
    ∃ m w, x.runFrom (s.monitor, s.tally.world) = (.ok b, m, w) ∧
      s' = { s with monitor := m, tally := { s.tally with world := w } } :=
  Effect.runFrom_within_ok.trans ⟨fun ⟨(m, w), ran, same⟩ => ⟨m, w, ran, same⟩,
    fun ⟨m, w, ran, same⟩ => ⟨(m, w), ran, same⟩⟩

theorem onObservers_ok {x : Effect (List (Observer ω Rat) × ω) Rat β} {b : β} :
    (onObservers x).runFrom s = (.ok b, s') ↔
      ∃ os w, x.runFrom (s.observers, s.tally.world) = (.ok b, os, w) ∧
        s' = { s with observers := os, tally := { s.tally with world := w } } :=
  Effect.runFrom_within_ok.trans ⟨fun ⟨(os, w), ran, same⟩ => ⟨os, w, ran, same⟩,
    fun ⟨os, w, ran, same⟩ => ⟨(os, w), ran, same⟩⟩

theorem journal_answered {x : Effect (Tally ω) Rat β} {z : Effect (Monitor ω Rat × ω) Rat γ} {e : Entry Rat}
    {b : Except (Error Rat) β} {c : Except (Error Rat) γ} {s₁ : Session ω Rat}
    (answered : (onTally x).runFrom s = (b, s₁)) (acknowledged : (onMonitor z).runFrom (s₁.noted e) = (c, s')) :
    s'.journal = s.journal ++ [e] := by
  rw [(sameAccount_onMonitor acknowledged).journal, journal_noted, (sameAccount_onTally answered).journal]

theorem journal_counted (s : Session ω Rat) (n : Nat) (e : Entry Rat) :
    (({ s with accepted := n } : Session ω Rat).noted e).journal = s.journal ++ [e] :=
  journal_noted { s with accepted := n } e

end Session

/-- A window of a step, with the piece of it that is to be accepted next. -/
structure Cut where
  /-- The step. -/
  leg : Leg Rat
  /-- What is left of it. -/
  window : Window Rat
  /-- The piece of the window up to an event, or all of it. -/
  piece : Window Rat

/-- Whether the piece of a cut ends at the target. -/
def Cut.atEnd (cut : Cut) : Bool := cut.leg.last && cut.piece.stop == cut.leg.step.tNext

/-- A point between two things that a run does. -/
inductive Stage (ω : Type) where
  /-- Before anything is called. -/
  | opening (t : Rat) (y : State Rat)
  /-- Before the next step, at a time and a state, with the derivative there if it is known. -/
  | stepping (t : Rat) (y : State Rat) (yp : Option (State Rat))
  /-- Before a window of a step is scanned. -/
  | scanning (leg : Leg Rat) (window : Window Rat)
  /-- A group of events has been located, here with its first member apart. -/
  | located (leg : Leg Rat) (window : Window Rat) (first : Occurrence Rat) (rest : List (Occurrence Rat))
  /-- Members of the group have still to be asked, given what those before them decided. -/
  | asking (cut : Cut) (rest : List (Occurrence Rat)) (verdict : Verdict ω Rat)
  /-- A member of the group has been told of its event and has not answered yet. -/
  | awaiting (cut : Cut) (o : Occurrence Rat) (handler : Handler ω Rat) (rest : List (Occurrence Rat))
      (verdict : Verdict ω Rat)
  /-- The piece is about to be accepted. -/
  | decided (cut : Cut) (last : Bool) (verdict : Verdict ω Rat)
  /-- The piece is accepted, and the observers have still to hear of it. -/
  | accepted (cut : Cut) (last : Bool) (verdict : Verdict ω Rat)
  /-- The observers have heard of the piece. -/
  | told (cut : Cut) (verdict : Verdict ω Rat)
  /-- Stepping is about to start afresh from a time and a state. -/
  | restarting (t : Rat) (y : State Rat) (atEnd : Bool)
  /-- The run is over. -/
  | ended (t : Rat) (y : State Rat)

/-- The stage of a run between two passes. -/
def Phase.stage : Phase Rat → Stage ω
  | .stepping t y yp => .stepping t y yp
  | .scanning leg window => .scanning leg window

/-- The stage of a run after a pass. -/
def Progress.stage : Progress Rat → Stage ω
  | .finished t y => .ended t y
  | .onward phase => phase.stage

/-- The stage after a member of a group has answered. -/
def Cut.answered (cut : Cut) (o : Occurrence Rat) (handler : Handler ω Rat) (rest : List (Occurrence Rat))
    (verdict : Verdict ω Rat) : Action → Stage ω
  | .carryOn => .asking cut rest verdict
  | .resetDerivatives => .asking cut rest .restart
  | .resetState => .asking cut [] (.replace o.index handler)
  | .stop => .asking cut [] .stop

/-- The stage after a piece without an interruption, in front of what is left of the window. -/
inductive Cut.Resumed [Spacing Rat] (cut : Cut) : Stage ω → Prop where
  /-- The step is over, and it leads to the target. -/
  | ended (whole : cut.piece.stop = cut.window.stop) (last : cut.leg.last = true) :
      cut.Resumed (.ended cut.piece.stop cut.piece.yStop)
  /-- The step is over, and its last derivative is the first one of the next. -/
  | stepping (whole : cut.piece.stop = cut.window.stop) (more : cut.leg.last = false) :
      cut.Resumed (.stepping cut.piece.stop cut.piece.yStop (some cut.leg.step.ypNext))
  /-- The rest of the window has to be scanned. -/
  | scanning {rest : Window Rat} (inner : cut.piece.stop ≠ cut.window.stop)
      (narrowed : cut.window.restrict cut.piece.stop cut.window.stop = .ok rest) :
      cut.Resumed (.scanning cut.leg rest)

variable [Spacing Rat]

open Session

/-- Everything that a run can do at a stage. -/
inductive Move (course : Course ω Rat) : Stage ω × Session ω Rat → Stage ω × Session ω Rat → Prop where
  | open {t y yp s s₁ s₂ s₃}
      (derivative : (onTally (course.equation.call t y)).runFrom s = (.ok yp, s₁))
      (fits : course.equation.requireSize .derivative yp = .ok ())
      (watched : (onMonitor (Monitor.init t y course.target)).runFrom s₁ = (.ok (), s₂))
      (observed : (onObservers (Effect.forEach (Observer.start t y course.target))).runFrom s₂ = (.ok (), s₃)) :
      Move course (.opening t y, s) (.stepping t y (some yp), s₃)
  | step {t y yp leg s s'} (taken : (course.nextLeg t y yp).runFrom s = (.ok leg, s')) :
      Move course (.stepping t y yp, s) (.scanning leg (.ofStep leg.step), s')
  | clear {leg window s s'} (scanned : (Course.scan window).runFrom s = (.ok [], s')) :
      Move course (.scanning leg window, s) (.decided ⟨leg, window, window⟩ leg.last .carryOn, s')
  | locate {leg window first rest s s'} (scanned : (Course.scan window).runFrom s = (.ok (first :: rest), s')) :
      Move course (.scanning leg window, s)
        (.located leg window first rest, s'.noted (.located window (first :: rest)))
  | cut {leg window first rest s piece} (cut : window.truncate first.t = .ok piece) :
      Move course (.located leg window first rest, s) (.asking ⟨leg, window, piece⟩ (first :: rest) .carryOn, s)
  | ask {cut o rest verdict channel s} (watched : s.monitor.channels[o.index]? = some channel) :
      Move course (.asking cut (o :: rest) verdict, s)
        (.awaiting cut o channel.handler rest verdict, s.noted (.asked o cut.piece.yStop))
  | answer {cut o handler rest verdict action s s₁ s₂}
      (answered : (outside (handler.eventOccurred cut.piece.stop cut.piece.yStop o.increasing)).runFrom s =
        (.ok action, s₁))
      (acknowledged : (onMonitor (Monitor.acknowledge o.index o.t)).runFrom (s₁.noted (.answered o.index action)) =
        (.ok (), s₂)) :
      Move course (.awaiting cut o handler rest verdict, s) (cut.answered o handler rest verdict action, s₂)
  | decide {cut verdict s} :
      Move course (.asking cut [] verdict, s) (.decided cut (verdict.isStop || cut.atEnd) verdict, s)
  | accept {cut last verdict s} (affordable : s.accepted < course.budget) :
      Move course (.decided cut last verdict, s)
        (.accepted cut last verdict, { s with accepted := s.accepted + 1 }.noted (.accepted cut.piece last))
  | tell {cut last verdict s s'}
      (told : (onObservers (Effect.forEach (Observer.accept cut.piece last))).runFrom s = (.ok (), s')) :
      Move course (.accepted cut last verdict, s) (.told cut verdict, s')
  | stop {cut s} :
      Move course (.told cut .stop, s) (.ended cut.piece.stop cut.piece.yStop, s.noted (.stopped cut.piece.stop))
  | replace {cut index handler y s s'}
      (reset : (outside (handler.resetState cut.piece.stop cut.piece.yStop)).runFrom s = (.ok y, s'))
      (fits : course.equation.requireSize .resetState y = .ok ()) :
      Move course (.told cut (.replace index handler), s)
        (.restarting cut.piece.stop y cut.atEnd, s'.noted (.replaced index cut.piece.stop y))
  | restart {cut s} :
      Move course (.told cut .restart, s) (.restarting cut.piece.stop cut.piece.yStop cut.atEnd, s)
  | refresh {t y atEnd s s'} (committed : (onMonitor (Monitor.commit t y)).runFrom s = (.ok (), s')) :
      Move course (.restarting t y atEnd, s) (if atEnd then .ended t y else .stepping t y none, s')
  | resume {cut s s' stage}
      (committed : (onMonitor (Monitor.commit cut.piece.stop cut.piece.yStop)).runFrom s = (.ok (), s'))
      (resumed : cut.Resumed stage) :
      Move course (.told cut .carryOn, s) (stage, s')

/-- A path of moves. -/
abbrev Moves (course : Course ω Rat) : Stage ω × Session ω Rat → Stage ω × Session ω Rat → Prop :=
  Relation.ReflTransGen (Move course)

section

variable {course : Course ω Rat} {s s' : Session ω Rat}

theorem sameAccount_scan {window : Window Rat} {r : Except (Error Rat) (List (Occurrence Rat))} {s' : Session ω Rat}
    (ran : (Course.scan window).runFrom s = (r, s')) : s.SameAccount s' := by
  unfold Course.scan at ran
  rw [Effect.runFrom_bind, Effect.runFrom_get] at ran
  by_cases unwatched : s.monitor.channels.isEmpty = true
  · simp only [unwatched, if_true, Effect.runFrom_pure] at ran
    cases ran
    exact .refl s
  · simp only [unwatched] at ran
    exact sameAccount_onMonitor ran

omit [Spacing Rat] in
theorem sameAccount_nextLeg {t : Rat} {y : State Rat} {yp : Option (State Rat)} {r : Except (Error Rat) (Leg Rat)}
    {s' : Session ω Rat} (ran : (course.nextLeg t y yp).runFrom s = (r, s')) : s.SameAccount s' :=
  silent_bind (silent_onTally _) (fun _ => silent_pure _) s r s' ran

/-- The entries that a move from a stage may add to the journal. -/
inductive Stage.Writes : Stage ω → Entry Rat → Prop where
  | located {leg window group} : Writes (.scanning leg window) (.located window group)
  | asked {cut o rest verdict} : Writes (.asking cut (o :: rest) verdict) (.asked o cut.piece.yStop)
  | answered {cut o handler rest verdict action} :
      Writes (.awaiting cut o handler rest verdict) (.answered o.index action)
  | accepted {cut last verdict} : Writes (.decided cut last verdict) (.accepted cut.piece last)
  | replaced {cut index handler y} : Writes (.told cut (.replace index handler)) (.replaced index cut.piece.stop y)
  | stopped {cut} : Writes (.told cut .stop) (.stopped cut.piece.stop)

/-- A move leaves the journal as it is or adds one entry. -/
theorem Move.journal {p q : Stage ω} (move : Move course (p, s) (q, s')) :
    s'.journal = s.journal ∨ ∃ e, s'.journal = s.journal ++ [e] ∧ p.Writes e := by
  cases move with
  | «open» derivative fits watched observed =>
    exact Or.inl (((sameAccount_onTally derivative).trans (sameAccount_onMonitor watched)).trans
      (sameAccount_onObservers observed)).journal
  | step taken => exact Or.inl (sameAccount_nextLeg taken).journal
  | clear scanned => exact Or.inl (sameAccount_scan scanned).journal
  | locate scanned =>
    rw [journal_noted, (sameAccount_scan scanned).journal]
    exact Or.inr ⟨_, rfl, .located⟩
  | cut truncated => exact Or.inl rfl
  | ask watched => exact Or.inr ⟨_, journal_noted s _, .asked⟩
  | answer answered acknowledged => exact Or.inr ⟨_, journal_answered answered acknowledged, .answered⟩
  | decide => exact Or.inl rfl
  | accept affordable => exact Or.inr ⟨_, journal_counted s _ _, .accepted⟩
  | tell told => exact Or.inl (sameAccount_onObservers told).journal
  | stop => exact Or.inr ⟨_, journal_noted s _, .stopped⟩
  | replace reset fits =>
    rw [journal_noted, (sameAccount_onTally reset).journal]
    exact Or.inr ⟨_, rfl, .replaced⟩
  | restart => exact Or.inl rfl
  | refresh committed => exact Or.inl (sameAccount_onMonitor committed).journal
  | resume committed resumed => exact Or.inl (sameAccount_onMonitor committed).journal

end

/-- What every move keeps, a path keeps. -/
theorem Moves.preserve {course : Course ω Rat} {P : Stage ω → Session ω Rat → Prop} {p q : Stage ω}
    {s u : Session ω Rat} (path : Moves course (p, s) (q, u)) (first : P p s)
    (step : ∀ p s q s', P p s → Move course (p, s) (q, s') → P q s') : P q u := by
  have all : ∀ a b, Moves course a b → P a.1 a.2 → P b.1 b.2 := by
    intro a b path start
    induction path with
    | refl => exact start
    | tail _ move ih => exact step _ _ _ _ ih move
  exact all _ _ path first

/-- A path to an entry of the journal: it splits at the move that adds the entry. -/
theorem Moves.split {course : Course ω Rat} {p q : Stage ω} {s u : Session ω Rat} {before after : Journal Rat}
    {e : Entry Rat} (path : Moves course (p, s) (q, u)) (empty : s.journal = [])
    (entries : u.journal = before ++ e :: after) :
    ∃ p₁ s₁ p₂ s₂, Moves course (p, s) (p₁, s₁) ∧ s₁.journal = before ∧ p₁.Writes e ∧
      Move course (p₁, s₁) (p₂, s₂) ∧ s₂.journal = before ++ [e] ∧ Moves course (p₂, s₂) (q, u) := by
  have all : ∀ a b, Moves course a b → a.2.journal = [] → ∀ after, b.2.journal = before ++ e :: after →
      ∃ p₁ s₁ p₂ s₂, Moves course a (p₁, s₁) ∧ s₁.journal = before ∧ p₁.Writes e ∧
        Move course (p₁, s₁) (p₂, s₂) ∧ s₂.journal = before ++ [e] ∧ Moves course (p₂, s₂) b := by
    intro a b path empty
    induction path with
    | refl =>
      intro after entries
      rw [empty] at entries
      simp at entries
    | @tail b c earlier move ih =>
      intro after entries
      obtain ⟨p₁, s₁⟩ := b
      obtain ⟨p₂, s₂⟩ := c
      rcases move.journal with same | ⟨e', grown, writes⟩
      · obtain ⟨p₃, s₃, p₄, s₄, first, short, wrote, added, long, rest⟩ := ih after (same ▸ entries)
        exact ⟨p₃, s₃, p₄, s₄, first, short, wrote, added, long, rest.tail move⟩
      · rcases List.eq_nil_or_concat after with rfl | ⟨after, last, rfl⟩
        · rw [grown] at entries
          obtain ⟨short, same⟩ := List.append_inj' entries rfl
          cases same
          exact ⟨p₁, s₁, p₂, s₂, earlier, short, writes, move, short ▸ grown, .refl⟩
        · rw [grown, List.concat_eq_append, ← List.cons_append, ← List.append_assoc] at entries
          obtain ⟨short, _⟩ := List.append_inj' entries rfl
          obtain ⟨p₃, s₃, p₄, s₄, first, begun, wrote, added, long, rest⟩ := ih after short
          exact ⟨p₃, s₃, p₄, s₄, first, begun, wrote, added, long, rest.tail move⟩
  exact all _ _ path empty after entries

end Trajectory
