import Mathlib.Tactic
import Trajectory.Proofs.Record
import Trajectory.Proofs.Safety

/-!
What one observer alone does to the state of the caller.

If all other functions of the caller leave something that can be read of its state as it is, then one
observer decides what it becomes: what is read changes at the start of the run and at the accepted
pieces, in order, and nowhere else (`Observer.Listens`, `Engine.integrate_listens`). Unlike a record of
messages, this keeps what the observer has become next to what is read, so that observers whose calls
depend on what they have heard before can be followed.
-/

namespace Trajectory

open Effect Session

variable {ω ι β : Type}

namespace Observer

/-- An observer and what is read of the state of the caller, before and after it is told something. -/
def Turns (read : ω → ι) (x : Effect (Observer ω Rat × ω) Rat Unit) (a b : Observer ω Rat × ι) : Prop :=
  ∃ w w', read w = a.2 ∧ x.runFrom (a.1, w) = (.ok (), b.1, w') ∧ read w' = b.2

/-- What an observer and what is read of the state of the caller become by the start of a run and by some pieces. -/
inductive Listens [Spacing Rat] (read : ω → ι) (t0 : Rat) (y0 : State Rat) (target : Rat) (a : Observer ω Rat × ι) :
    List (Window Rat × Bool) → Observer ω Rat × ι → Prop where
  | started {b} (told : Turns read (start t0 y0 target) a b) : Listens read t0 y0 target a [] b
  | heard {pieces piece last b c} (before : Listens read t0 y0 target a pieces b)
      (told : Turns read (accept piece last) b c) : Listens read t0 y0 target a (pieces ++ [(piece, last)]) c

/-- Observers of which the one at some place is known, and the others leave what is read as it is. -/
inductive AloneAt (read : ω → ι) (o : Observer ω Rat) : Nat → List (Observer ω Rat) → Prop where
  | here {os} (others : ∀ o' ∈ os, o'.Leaves read) : AloneAt read o 0 (o :: os)
  | later {o' os n} (leaves : o'.Leaves read) (rest : AloneAt read o n os) : AloneAt read o (n + 1) (o' :: os)

variable {read : ω → ι} {o : Observer ω Rat} {os os' : List (Observer ω Rat)} {n : Nat} {w w' : ω}
  {x : Effect (Observer ω Rat × ω) Rat Unit} {m : Message Rat}

/-- Before the last piece an observer listens to the ones before it. -/
theorem Listens.init [Spacing Rat] {t0 target : Rat} {y0 : State Rat} {a c : Observer ω Rat × ι}
    {pieces : List (Window Rat × Bool)} {piece : Window Rat} {last : Bool}
    (listens : Listens read t0 y0 target a (pieces ++ [(piece, last)]) c) :
    ∃ b, Listens read t0 y0 target a pieces b ∧ Turns read (accept piece last) b c := by
  generalize whole : pieces ++ [(piece, last)] = all at listens
  cases listens with
  | started => exact absurd whole (List.append_ne_nil_of_right_ne_nil _ (List.cons_ne_nil _ _))
  | heard before told =>
    obtain ⟨rfl, same⟩ := List.append_inj' whole rfl
    cases same
    exact ⟨_, before, told⟩

/-- When all observers are told something, what is read is what the one observer makes of it. -/
theorem AloneAt.told (alone : AloneAt read o n os) (tells : Tells x m)
    (ran : (forEach x).runFrom (os, w) = (.ok (), os', w')) :
    ∃ o', AloneAt read o' n os' ∧ Turns read x (o, read w) (o', read w') := by
  induction alone generalizing w os' with
  | @here os others =>
    obtain ⟨o', v, rest', first, rest, rfl⟩ := forEach_cons_ok.mp ran
    obtain ⟨others', same⟩ := (tells.meets_leaves read (read v) (os, v) ⟨others, rfl⟩).1 () _ rest
    exact ⟨o', .here others', w, v, rfl, first, same.symm⟩
  | @later o₁ os n leaves _ ih =>
    obtain ⟨o₁', v, rest', first, rest, rfl⟩ := forEach_cons_ok.mp ran
    obtain ⟨o', alone', turns⟩ := ih rest
    have kept : read v = read w := by
      have same := tells.leaves read o₁ w leaves
      rwa [first] at same
    have leaves' : o₁'.Leaves read := by
      have stays := tells.stays (w := w) leaves
      rwa [first] at stays
    rw [kept] at turns
    exact ⟨o', .later leaves' alone', turns⟩

end Observer

/-! ## Along a run -/

/-- The terms that what is read of the state of the caller stays as it is. -/
def Terms.still (read : ω → ι) (base : ι) : Terms (Account ω Rat) Rat where
  holds a := read a.world = base
  failed _ _ := True
  fails _ _ _ := trivial

/-- What is read of the state of the caller at a session, with handlers that leave it as it is and the observers. -/
def Session.Still (read : ω → ι) (base : ι) (os : List (Observer ω Rat)) (s : Session ω Rat) : Prop :=
  read s.tally.world = base ∧ (∀ c ∈ s.monitor.channels, c.handler.Leaves read) ∧ s.observers = os

section

variable {read : ω → ι} {base : ι} {os : List (Observer ω Rat)} {s s' : Session ω Rat} {course : Course ω Rat}

private theorem reads_still (w w' : ω) (n m : Nat) (pieces : List (Window Rat × Bool)) (same : read w' = read w)
    (before : (Terms.still read base).holds ⟨w, n, pieces⟩) : (Terms.still read base).holds ⟨w', m, pieces⟩ :=
  same.trans before

private theorem honours_still (handler : Handler ω Rat) (leaves : handler.Leaves read) :
    handler.Honours (Terms.still read base) :=
  leaves.honours fun w w' n => reads_still w w' n n

/-- A part of a run that keeps the terms leaves what is read and the observers as they are. -/
theorem Session.Still.keeps {x : Effect (Session ω Rat) Rat β} {P : β → Prop} {b : β}
    (still : s.Still read base os)
    (keeps : x.Keeps ((Terms.still read base).session (Handler.Leaves read) (· = os)) P)
    (ran : x.runFrom s = (.ok b, s')) : s'.Still read base os :=
  ((keeps s still).1 b s' ran).2

theorem Session.pieces_noted (s : Session ω Rat) {e : Entry Rat} (other : e.piece? = none) :
    (s.noted e).journal.pieces = s.journal.pieces := by
  rw [journal_noted, Journal.pieces_append]
  simp [Journal.pieces, other]

/-- The piece at a stage of which the observers have still to hear. -/
def Stage.untold : Stage ω → List (Window Rat × Bool)
  | accepted cut last _ => [(cut.piece, last)]
  | _ => []

variable [Spacing Rat] {p q : Stage ω} {t0 : Rat} {y0 : State Rat} {a : Observer ω Rat × ι} {n : Nat}
  {watches : List (Handler ω Rat × Settings Rat)}

/-- Behind the start of a run, the one observer has listened to all pieces of which it should have heard. -/
structure Stage.Listened (read : ω → ι) (course : Course ω Rat) (t0 : Rat) (y0 : State Rat) (a : Observer ω Rat × ι)
    (n : Nat) (p : Stage ω) (s : Session ω Rat) : Prop where
  begun : ∀ t y, p ≠ .opening t y
  listens : ∃ pieces b, s.journal.pieces = pieces ++ p.untold ∧
    Observer.Listens read t0 y0 course.target a pieces b ∧ Observer.AloneAt read b.1 n s.observers ∧
    s.Still read b.2 s.observers

/-- What leaves the observers and what is read as they are leaves the one observer where it is. -/
theorem Stage.Listened.on (listened : p.Listened read course t0 y0 a n s) (told : p.untold = [])
    (pieces : s'.journal.pieces = s.journal.pieces ++ q.untold)
    (still : ∀ base, s.Still read base s.observers → s'.Still read base s.observers)
    (begun : ∀ t y, q ≠ .opening t y) : q.Listened read course t0 y0 a n s' := by
  obtain ⟨earlier, b, before, listens, alone, quiet⟩ := listened.listens
  have quiet' := still _ quiet
  refine ⟨begun, earlier, b, ?_, listens, ?_, ?_⟩
  · rw [pieces, before, told, List.append_nil]
  · rw [quiet'.2.2]
    exact alone
  · rw [quiet'.2.2]
    exact quiet'

/-- The start of a run is the first thing to which the one observer listens. -/
theorem listened_open (rate : course.equation.toRate.Leaves read) (empty : s.journal.pieces = [])
    (alone : Observer.AloneAt read a.1 n s.observers) (still : s.Still read a.2 s.observers)
    (move : Move course (.opening t0 y0, s) (q, s')) : q.Listened read course t0 y0 a n s' := by
  cases move with
  | @«open» _ _ _ _ s₁ s₂ _ derivative fits watched observed =>
    have called := still.keeps (Session.keeps_onTally fun _ =>
      (rate.honours reads_still).keeps_call t0 y0) derivative
    have opened := called.keeps (Session.keeps_onMonitor fun _ _ =>
      Monitor.keeps_opening honours_still t0 y0 course.target) watched
    have account := ((sameAccount_onTally derivative).trans (sameAccount_onMonitor watched)).trans
      (sameAccount_onObservers observed)
    obtain ⟨os, w, told, rfl⟩ := onObservers_ok.mp observed
    obtain ⟨same, handlers, observers⟩ := opened
    rw [observers] at told
    obtain ⟨o', alone', turns⟩ := alone.told (Observer.tells_start t0 y0 course.target) told
    rw [same] at turns
    refine ⟨nofun, [], (o', read w), ?_, .started turns, alone', rfl, handlers, rfl⟩
    rw [account.journal, empty]
    rfl

/-- Along a run the one observer listens to the accepted pieces. -/
theorem listened_move (rate : course.equation.toRate.Leaves read) (handlers : ∀ watch ∈ watches, watch.1.Leaves read)
    (move : Move course (p, s) (q, s')) (route : p.OnRoute course watches t0 s.monitor)
    (before : p.Listened read course t0 y0 a n s) : q.Listened read course t0 y0 a n s' := by
  have committed {t : Rat} {y : State Rat} {s' : Session ω Rat}
      (ran : (onMonitor (Monitor.commit t y)).runFrom s = (.ok (), s')) (base : ι)
      (still : s.Still read base s.observers) : s'.Still read base s.observers :=
    still.keeps (Course.keeps_commit honours_still t y) ran
  have committed' {t : Rat} {y : State Rat} {s' : Session ω Rat}
      (ran : (onMonitor (Monitor.commit t y)).runFrom s = (.ok (), s')) :
      s'.journal.pieces = s.journal.pieces ++ [] := by
    rw [(sameAccount_onMonitor ran).journal, List.append_nil]
  cases move with
  | «open» => exact absurd rfl (before.begun _ _)
  | step taken =>
    refine before.on rfl ?_
      (fun _ still => still.keeps (Course.keeps_nextLeg (rate.honours reads_still) _ _ _) taken) nofun
    rw [(sameAccount_nextLeg taken).journal]
    exact (List.append_nil _).symm
  | clear scanned =>
    refine before.on rfl ?_ (fun _ still => still.keeps (Course.keeps_scan honours_still _) scanned) nofun
    rw [(sameAccount_scan scanned).journal]
    exact (List.append_nil _).symm
  | @locate _ _ first rest _ s₁ scanned =>
    refine before.on rfl ?_ (fun base still => ?_) nofun
    · rw [pieces_noted _ rfl, (sameAccount_scan scanned).journal]
      exact (List.append_nil _).symm
    · have kept : s₁.Still read base s.observers := still.keeps (Course.keeps_scan honours_still _) scanned
      exact kept
  | cut truncated => exact before.on rfl (List.append_nil _).symm (fun _ => id) nofun
  | ask watched =>
    exact before.on rfl ((pieces_noted s rfl).trans (List.append_nil _).symm) (fun _ => id) nofun
  | @answer cut o handler rest verdict action _ s₁ _ answered acknowledged =>
    obtain ⟨_, _, ⟨settings, registered⟩, _⟩ := route
    have leaves : handler.Leaves read := handlers _ (List.mem_of_getElem? registered)
    have quiet : (cut.answered o handler rest verdict action).untold = [] := by cases action <;> rfl
    refine before.on rfl ?_ (fun base still => ?_) ?_
    · rw [(sameAccount_onMonitor acknowledged).journal, pieces_noted _ rfl, (sameAccount_onTally answered).journal,
        quiet, List.append_nil]
    · have asked := still.keeps (Session.keeps_outside ((honours_still handler leaves).eventOccurred _ _ _)) answered
      exact (show (s₁.noted (.answered o.index action)).Still read base s.observers from asked).keeps
        (Session.keeps_onMonitor fun _ _ => Monitor.keeps_acknowledge _ _) acknowledged
    · cases action <;> exact nofun
  | decide => exact before.on rfl (List.append_nil _).symm (fun _ => id) nofun
  | @accept cut last verdict _ affordable =>
    refine before.on rfl ?_ (fun _ => id) nofun
    rw [journal_counted, Journal.pieces_append]
    rfl
  | @tell cut last verdict _ _ told =>
    obtain ⟨earlier, b, pieces, listens, alone, same, kinds, _⟩ := before.listens
    have account := sameAccount_onObservers told
    obtain ⟨os, w, heard, rfl⟩ := onObservers_ok.mp told
    obtain ⟨o', alone', turns⟩ := alone.told (Observer.tells_accept cut.piece last) heard
    rw [same] at turns
    refine ⟨nofun, earlier ++ [(cut.piece, last)], (o', read w), ?_, .heard listens turns, alone', rfl, kinds, rfl⟩
    rw [account.journal, pieces]
    exact (List.append_nil _).symm
  | stop => exact before.on rfl ((pieces_noted s rfl).trans (List.append_nil _).symm) (fun _ => id) nofun
  | @replace _ _ _ _ _ s₁ reset fits =>
    obtain ⟨_, ⟨settings, registered⟩, _⟩ := route
    have leaves := handlers _ (List.mem_of_getElem? registered)
    refine before.on rfl ?_ (fun base still => ?_) nofun
    · rw [pieces_noted _ rfl, (sameAccount_onTally reset).journal]
      exact (List.append_nil _).symm
    · have kept : s₁.Still read base s.observers :=
        still.keeps (Session.keeps_outside ((honours_still _ leaves).resetState _ _)) reset
      exact kept
  | restart => exact before.on rfl (List.append_nil _).symm (fun _ => id) nofun
  | @refresh _ _ atEnd _ _ ran =>
    cases atEnd with
    | true => exact before.on rfl (committed' ran) (committed ran) nofun
    | false => exact before.on rfl (committed' ran) (committed ran) nofun
  | resume ran resumed =>
    cases resumed with
    | ended | stepping | scanning => exact before.on rfl (committed' ran) (committed ran) nofun

end

/-- An engine of which one observer alone touches what is read of the state of the caller. -/
structure Engine.Alone (e : Engine ω Rat) (equation : Equation ω Rat) (read : ω → ι) (n : Nat) (o : Observer ω Rat) :
    Prop where
  rate : equation.toRate.Leaves read
  handlers : ∀ watch ∈ e.watches, watch.1.Leaves read
  observers : Observer.AloneAt read o n e.observers

/-- In a run that returns, an observer that alone touches what is read of the state of the caller listens to all
pieces of the run, and what is read becomes what the observer makes of them. -/
theorem Engine.integrate_listens [Spacing Rat] {e e' : Engine ω Rat} (usable : e.Usable) {equation : Equation ω Rat}
    {read : ω → ι} {n : Nat} {o : Observer ω Rat} (alone : e.Alone equation read n o) {t0 target t : Rat}
    {y0 y : State Rat} {w w' : ω}
    (ran : (integrate equation t0 y0 target).runFrom (e, w) = (.ok (t, y), e', w')) :
    ∃ o', Observer.Listens read t0 y0 target (o, read w) e'.journal.pieces (o', read w') := by
  obtain ⟨course, v, prepared, finished, rfl, rfl⟩ := integrate_ok ran
  obtain ⟨directed, same, _, goal, _⟩ := prepare_ok usable prepared
  obtain ⟨_, u, path, _, returned⟩ := run_path finished
  obtain ⟨rfl, rfl⟩ := returned t y rfl
  obtain ⟨q, s, first, rest⟩ := path.begins nofun
  have rate : course.equation.toRate.Leaves read := same ▸ alone.rate
  have still : (Session.start w (Monitor.create e.watches) e.observers).Still read (read w) e.observers :=
    ⟨rfl, forall_watched alone.handlers, rfl⟩
  have begun := listened_open (a := (o, read w)) rate rfl alone.observers still first
  obtain ⟨_, listened⟩ := rest.preserve
    (P := fun q s => q.OnRoute course e.watches t0 s.monitor ∧ q.Listened read course t0 y0 (o, read w) n s)
    ⟨onRoute_move directed first ⟨rfl, rfl⟩, begun⟩
    fun _ _ _ _ ⟨route, listened⟩ move =>
      ⟨onRoute_move directed move route, listened_move rate alone.handlers move route listened⟩
  obtain ⟨pieces, b, all, listens, _, there, _⟩ := listened.listens
  rw [goal] at listens
  have whole : pieces = u.journal.pieces := ((List.append_nil pieces).symm.trans all.symm)
  exact ⟨b.1, whole ▸ there ▸ listens⟩

end Trajectory
