import Mathlib.Tactic
import Trajectory.Proofs.Account
import Trajectory.Proofs.Observer.Renewal
import Trajectory.Proofs.Passes
import Trajectory.Proofs.Timer

/-!
What an observer is told in a run, from its own point of view.

An observer of the caller may keep a record of all that it is told, in the state of the caller, however its calls end
(`Observer.Records`). If nothing else touches the record, it can be compared with the journal, at every place among
the observers (`Observer.RecordAt`): in a run that returns it holds the start, once, and after it the pieces of the
journal in order, and in a run that fails it holds an initial part of these (`Course.run_messages`). As only the last
piece of a journal may carry the flag of the last one, no observer is ever told of a piece after such a piece
(`Engine.integrate_messages`). This holds for every kind of scalars.
-/

namespace Trajectory

open Effect

variable {σ ω α β ι : Type}

/-- What an observer is told. -/
inductive Message (α : Type) where
  | start (t0 : α) (y0 : State α) (target : α)
  /-- A piece, with word whether it is the last one. -/
  | piece (handed : Window α × Bool)
deriving DecidableEq

namespace Message

/-- The piece that a message is about, with its flag. -/
def piece? : Message α → Option (Window α × Bool)
  | start _ _ _ => none
  | piece handed => some handed

/-- The messages of a run with some pieces. -/
def ofRun (t0 : α) (y0 : State α) (target : α) (pieces : List (Window α × Bool)) : List (Message α) :=
  .start t0 y0 target :: pieces.map .piece

variable {t0 target : α} {y0 : State α}

theorem pieces_ofRun (pieces : List (Window α × Bool)) : (ofRun t0 y0 target pieces).filterMap piece? = pieces := by
  rw [ofRun, List.filterMap_cons_none rfl, List.filterMap_map]
  exact List.filterMap_some

theorem ofRun_concat (pieces : List (Window α × Bool)) (p : Window α × Bool) :
    ofRun t0 y0 target (pieces ++ [p]) = ofRun t0 y0 target pieces ++ [.piece p] := by
  rw [ofRun, ofRun, List.map_append, List.cons_append, List.map_singleton]

end Message

/-- A right-hand side whose calls leave what is read of the state of the caller as it is. -/
structure Rate.Leaves (read : ω → ι) (f : Rate ω α) : Prop where
  eval : ∀ t y, (f.eval t y).Leaves read
  onCompile : f.onCompile.Leaves read

/-- A handler whose calls leave what is read of the state of the caller as it is. -/
structure Handler.Leaves (read : ω → ι) (handler : Handler ω α) : Prop where
  init : ∀ t y target, (handler.init t y target).Leaves read
  g : ∀ t y, (handler.g t y).Leaves read
  eventOccurred : ∀ t y increasing, (handler.eventOccurred t y increasing).Leaves read
  resetState : ∀ t y, (handler.resetState t y).Leaves read

/-- Terms that depend on the state of the caller through what is read of it only. -/
def Terms.Reads (read : ω → ι) (T : Terms (Account ω α) α) : Prop :=
  ∀ w w' n pieces, read w' = read w → T.holds ⟨w, n, pieces⟩ → T.holds ⟨w', n, pieces⟩

section

variable {read : ω → ι} {T : Terms (Account ω α) α}

theorem Effect.Leaves.honours {x : Effect ω α β} (leaves : x.Leaves read) (reads : T.Reads read) : x.Honours T := by
  intro n pieces
  have kept := meets_anyway (I := (T.world n pieces).holds) (K := (T.world n pieces).holds) (x := x)
    fun w before => reads w _ n pieces (leaves w) before
  exact kept.mono (fun _ => id) (fun _ _ after => ⟨trivial, after⟩) fun e _ => T.fails e _

theorem Handler.Leaves.honours {handler : Handler ω α} (leaves : handler.Leaves read) (reads : T.Reads read) :
    handler.Honours T := by
  constructor
  · exact fun t y target => (leaves.init t y target).honours reads
  · exact fun t y => (leaves.g t y).honours reads
  · exact fun t y increasing => (leaves.eventOccurred t y increasing).honours reads
  · exact fun t y => (leaves.resetState t y).honours reads

theorem Effect.Leaves.counts {x : Effect ω α β} (leaves : x.Leaves read)
    (reads : ∀ w w' n m pieces, read w' = read w → T.holds ⟨w, n, pieces⟩ → T.holds ⟨w', m, pieces⟩) : x.Counts T := by
  intro n pieces
  have counted := meets_anyway (I := (T.world n pieces).holds) (K := (T.world (n + 1) pieces).holds) (x := x)
    fun w before => reads w _ n _ pieces (leaves w) before
  exact counted.mono (fun _ => id) (fun _ _ => id) fun e _ => T.fails e _

theorem Rate.Leaves.honours {f : Rate ω α} (leaves : f.Leaves read)
    (reads : ∀ w w' n m pieces, read w' = read w → T.holds ⟨w, n, pieces⟩ → T.holds ⟨w', m, pieces⟩) : f.Honours T :=
  ⟨fun t y => (leaves.eval t y).counts reads, leaves.onCompile.counts reads⟩

end

namespace Observer

/-- An observer whose calls leave what is read of the state of the caller as it is. -/
def Leaves (read : ω → ι) : Observer ω α → Prop
  | .recorder _ => True
  | .sampler _ => True
  | .normalizer n => ∀ t y last, (n.callback t y last).Leaves read
  | .tracker _ => True
  | .custom onStart onPiece => (∀ t y target, (onStart t y target).Leaves read) ∧
      ∀ piece last, (onPiece piece last).Leaves read

/-- An observer that keeps a record of all that it is told, however its calls end. -/
def Records (heard : ω → List (Message α)) : Observer ω α → Prop
  | .recorder _ => False
  | .sampler _ => False
  | .normalizer _ => False
  | .tracker _ => False
  | .custom onStart onPiece =>
    (∀ t y target w, heard ((onStart t y target).runFrom w).2 = heard w ++ [.start t y target]) ∧
      ∀ piece last w, heard ((onPiece piece last).runFrom w).2 = heard w ++ [.piece (piece, last)]

/-- Observers of which the one at some place keeps a record, and the others leave it as it is. -/
inductive RecordAt (heard : ω → List (Message α)) : Nat → List (Observer ω α) → Prop where
  | here {o os} (records : o.Records heard) (others : ∀ o' ∈ os, o'.Leaves heard) : RecordAt heard 0 (o :: os)
  | later {o os n} (leaves : o.Leaves heard) (rest : RecordAt heard n os) : RecordAt heard (n + 1) (o :: os)

section

variable {read : ω → ι} {heard : ω → List (Message α)} {t0 target : α} {y0 : State α} {base : ι}

/-- What an observer leaves as it is does not matter to what it does. -/
theorem Leaves.respects {o : Observer ω α} (leaves : o.Leaves read) (base : ι) :
    o.Respects fun w w' => w' = w ∧ read w = base := by
  have each {x : Effect ω α Unit} (leaves : x.Leaves read) : x.Respects fun w w' => w' = w ∧ read w = base := by
    rintro _ w ⟨rfl, same⟩
    exact ⟨rfl, ⟨rfl, (leaves w).trans same⟩, fun _ _ => trivial⟩
  cases o with
  | recorder r => trivial
  | sampler s => trivial
  | normalizer n => exact fun t y last => each (leaves t y last)
  | tracker k => trivial
  | custom onStart onPiece =>
    exact ⟨fun t y target => each (leaves.1 t y target), fun piece last => each (leaves.2 piece last)⟩

variable [Scalar α]

theorem leaves_renewed {o : Observer ω α} : o.renewed.Leaves read ↔ o.Leaves read := by cases o <;> exact Iff.rfl

/-- Something that an observer is told, which leaves it the observer that it was made as. -/
structure Tells (x : Effect (Observer ω α × ω) α Unit) (m : Message α) : Prop where
  renewed : ∀ o w, (x.runFrom (o, w)).2.1.renewed = o.renewed
  leaves : ∀ {ι : Type} (read : ω → ι) (o : Observer ω α) w, o.Leaves read → read (x.runFrom (o, w)).2.2 = read w
  records : ∀ heard o w, o.Records heard →
    (x.runFrom (o, w)).2.1.Records heard ∧ heard (x.runFrom (o, w)).2.2 = heard w ++ [m]

theorem Tells.stays {x : Effect (Observer ω α × ω) α Unit} {m : Message α} (tells : Tells x m) {o : Observer ω α}
    {w : ω} (leaves : o.Leaves read) : (x.runFrom (o, w)).2.1.Leaves read := by
  rw [← leaves_renewed, tells.renewed, leaves_renewed]
  exact leaves

theorem tells_start (t0 : α) (y0 : State α) (target : α) :
    Tells (start t0 y0 target : Effect (Observer ω α × ω) α Unit) (.start t0 y0 target) := by
  refine ⟨renewed_start, fun read o w leaves => ?_, fun heard o w records => ?_⟩
  · rw [runFrom_start]
    exact ((leaves.respects (read w)).opening w w ⟨rfl, rfl⟩).2.1.2
  · cases o with
    | custom onStart onPiece => exact ⟨records, records.1 t0 y0 target w⟩
    | _ => exact records.elim

theorem tells_accept [Spacing α] (piece : Window α) (last : Bool) :
    Tells (accept piece last : Effect (Observer ω α × ω) α Unit) (.piece (piece, last)) := by
  refine ⟨fun o w => o.renewed_accept piece last w, fun read o w leaves => ?_, fun heard o w records => ?_⟩
  · obtain ⟨_, ⟨_, _, same⟩, _⟩ :=
      alike_accept _ piece last (o, w) (o, w) ⟨⟨rfl, leaves.respects (read w)⟩, rfl, rfl⟩
    exact same
  · cases o with
    | custom onStart onPiece => exact ⟨records, records.2 piece last w⟩
    | _ => exact records.elim

variable {x : Effect (Observer ω α × ω) α Unit} {m : Message α} {Q : Error α → List (Observer ω α) × ω → Prop}

/-- Observers that leave something as it is do so when they are told of something. -/
theorem Tells.meets_leaves (tells : Tells x m) (read : ω → ι) (base : ι) :
    (forEach x).Meets (fun p => (∀ o ∈ p.1, o.Leaves read) ∧ read p.2 = base)
      (fun _ p => (∀ o ∈ p.1, o.Leaves read) ∧ read p.2 = base) fun _ p => read p.2 = base := by
  have each : x.Meets (fun p => p.1.Leaves read ∧ read p.2 = base)
      (fun _ p => p.1.Leaves read ∧ read p.2 = base) fun _ p => p.1.Leaves read ∧ read p.2 = base :=
    meets_anyway fun ⟨o, w⟩ ⟨leaves, same⟩ => ⟨tells.stays leaves, (tells.leaves read o w leaves).trans same⟩
  exact meets_forEach (D := fun o : Observer ω α => o.Leaves read) (W := fun w => read w = base)
    (V := fun _ w => read w = base) (each.mono (fun _ => id) (fun _ _ => id) fun _ _ after => after.2)

/-- When the observers are told of something, it is added to the record, unless one before it fails. -/
theorem Tells.meets_record (tells : Tells x m) {n : Nat} (base : List (Message α)) :
    (forEach x).Meets (fun p => RecordAt heard n p.1 ∧ heard p.2 = base)
      (fun _ p => RecordAt heard n p.1 ∧ heard p.2 = base ++ [m])
      fun _ p => heard p.2 = base ++ [m] ∨ n ≠ 0 ∧ heard p.2 = base := by
  rintro ⟨os, w⟩ ⟨place, same⟩
  dsimp only at place same
  induction place generalizing w with
  | @here o os records others =>
    have told : x.Meets (· = (o, w)) (fun _ p => p.1.Records heard ∧ heard p.2 = base ++ [m])
        fun _ p => p.1.Records heard ∧ heard p.2 = base ++ [m] := by
      refine meets_anyway fun p here => ?_
      subst here
      exact same ▸ tells.records heard o w records
    refine meets_forEach_cons (D := fun o' v => o'.Records heard ∧ heard v = base ++ [m])
      (V := fun _ v => heard v = base ++ [m] ∨ 0 ≠ 0 ∧ heard v = base)
      (told.mono (fun _ => id) (fun _ _ => id) fun _ _ after => Or.inl after.2)
      (fun o' v ⟨records', heard'⟩ => ?_) _ rfl
    have rest := (tells.meets_leaves heard (base ++ [m])).at (s := (os, v)) ⟨others, heard'⟩
    exact rest.mono (fun _ => id) (fun _ p after => ⟨.here records' after.1, after.2⟩) fun _ _ => Or.inl
  | @later o os n leaves place ih =>
    have kept : x.Meets (· = (o, w)) (fun _ p => p.1.Leaves heard ∧ heard p.2 = base)
        fun _ p => p.1.Leaves heard ∧ heard p.2 = base := by
      refine meets_anyway fun p here => ?_
      subst here
      exact ⟨tells.stays leaves, (tells.leaves heard o w leaves).trans same⟩
    refine meets_forEach_cons (D := fun o' v => o'.Leaves heard ∧ heard v = base)
      (V := fun _ v => heard v = base ++ [m] ∨ n + 1 ≠ 0 ∧ heard v = base)
      (kept.mono (fun _ => id) (fun _ _ => id) fun _ _ after => Or.inr ⟨Nat.succ_ne_zero n, after.2⟩)
      (fun o' v ⟨leaves', unheard⟩ => ?_) _ rfl
    rintro _ rfl
    obtain ⟨returned, failed⟩ := ih v unheard
    refine ⟨fun b p ran => ?_, fun e p ran => ?_⟩
    · obtain ⟨place', told⟩ := returned b p ran
      exact ⟨.later leaves' place', told⟩
    · exact (failed e p ran).imp id fun earlier => ⟨Nat.succ_ne_zero n, earlier.2⟩

end

end Observer

namespace Terms

variable (heard : ω → List (Message α)) (base : List (Message α))

/-- Up to its start, a run adds nothing to a record. -/
def unheard : Terms (Account ω α) α where
  holds a := heard a.world = base ∧ a.pieces = []
  failed _ a := heard a.world = base ∧ a.pieces = []
  fails _ _ := id

/-- From its start on, a run adds to a record what belongs to its pieces. After a failure the last message may be
missing, unless the first observer keeps the record. -/
def recording (n : Nat) (t0 : α) (y0 : State α) (target : α) : Terms (Account ω α) α where
  holds a := heard a.world = base ++ Message.ofRun t0 y0 target a.pieces
  failed _ a := ∃ messages, heard a.world = base ++ messages ∧ messages <+: Message.ofRun t0 y0 target a.pieces ∧
    (n = 0 → messages.filterMap Message.piece? = a.pieces)
  fails _ a same := ⟨_, same, List.prefix_rfl, fun _ => Message.pieces_ofRun a.pieces⟩

variable {heard base} [Scalar α] [Spacing α] {n : Nat} {t0 target : α} {y0 : State α}

theorem audience_recording :
    (unheard heard base).Audience (recording heard base n t0 y0 target) (Observer.RecordAt heard n) t0 y0 target := by
  constructor
  · rintro evaluations pieces ⟨os, w⟩ ⟨place, same, rfl⟩
    refine ((Observer.tells_start t0 y0 target).meets_record base).mono (fun _ => id) (fun _ _ => id)
      (fun e p failed => ?_) (os, w) ⟨place, same⟩
    rcases failed with told | ⟨later, untold⟩
    · exact ⟨_, told, List.prefix_rfl, fun _ => rfl⟩
    · exact ⟨[], by rw [untold, List.append_nil], List.nil_prefix, fun first => absurd first later⟩
  · rintro piece last evaluations pieces ⟨os, w⟩ ⟨place, same⟩
    have joined : base ++ Message.ofRun t0 y0 target (pieces ++ [(piece, last)]) =
        base ++ Message.ofRun t0 y0 target pieces ++ [.piece (piece, last)] := by
      rw [Message.ofRun_concat, List.append_assoc]
    refine ((Observer.tells_accept piece last).meets_record (base ++ Message.ofRun t0 y0 target pieces)).mono
      (fun _ => id) (fun _ p known => ⟨known.1, known.2.trans joined.symm⟩) (fun e p failed => ?_) _ ⟨place, same⟩
    rcases failed with told | ⟨later, untold⟩
    · exact ⟨_, told.trans joined.symm, List.prefix_rfl, fun _ => Message.pieces_ofRun _⟩
    · refine ⟨_, untold, ?_, fun first => absurd first later⟩
      rw [Message.ofRun_concat]
      exact List.prefix_append _ _

end Terms

variable [Scalar α] [Spacing α] {heard : ω → List (Message α)} {n : Nat} {t0 target : α} {y0 : State α}

/-- However a run ends, a record that only one of its observers keeps has grown by the messages of the run, up to the
last one. If the run returns, none is missing, and for the first observer no piece is ever missing. -/
theorem Course.run_messages {course : Course ω α} (rate : course.equation.toRate.Leaves heard) {s s' : Session ω α}
    (empty : s.journal.pieces = []) (handlers : ∀ c ∈ s.monitor.channels, c.handler.Leaves heard)
    (place : Observer.RecordAt heard n s.observers) {r : Except (Error α) (α × State α)}
    (ran : (course.run t0 y0).runFrom s = (r, s')) :
    ∃ messages, heard s'.tally.world = heard s.tally.world ++ messages ∧
      messages <+: Message.ofRun t0 y0 course.target s'.journal.pieces ∧
      (n = 0 → messages.filterMap Message.piece? = s'.journal.pieces) ∧
      ∀ result, r = .ok result → messages = Message.ofRun t0 y0 course.target s'.journal.pieces := by
  let base := heard s.tally.world
  have reads₀ : ∀ w w' n m pieces, heard w' = heard w →
      (Terms.unheard heard base).holds ⟨w, n, pieces⟩ → (Terms.unheard heard base).holds ⟨w', m, pieces⟩ :=
    fun w w' n m pieces same before => ⟨same.trans before.1, before.2⟩
  have reads : ∀ w w' n' m pieces, heard w' = heard w →
      (Terms.recording heard base n t0 y0 course.target).holds ⟨w, n', pieces⟩ →
        (Terms.recording heard base n t0 y0 course.target).holds ⟨w', m, pieces⟩ :=
    fun w w' n m pieces same before => same.trans before
  have milder (e : Error α) (a : Account ω α) (unheard : (Terms.unheard heard base).failed e a) :
      (Terms.recording heard base n t0 y0 course.target).failed e a :=
    ⟨[], by rw [unheard.1, List.append_nil], List.nil_prefix, fun _ => unheard.2.symm⟩
  obtain ⟨returned, failed⟩ := Course.meets_run (H := Handler.Leaves heard)
    (fun handler leaves => leaves.honours fun w w' n pieces => reads w w' n n pieces) (rate.honours reads₀)
    (fun handler leaves => leaves.honours fun w w' n pieces => reads₀ w w' n n pieces) milder (rate.honours reads)
    Terms.audience_recording s ⟨⟨rfl, empty⟩, handlers, place⟩
  cases r with
  | ok result =>
    have told : heard s'.tally.world = base ++ Message.ofRun t0 y0 course.target s'.journal.pieces :=
      (returned result s' ran).1
    exact ⟨_, told, List.prefix_rfl, fun _ => Message.pieces_ofRun _, fun _ _ => rfl⟩
  | error e =>
    obtain ⟨messages, told, part, first⟩ := failed e s' ran
    refine ⟨messages, told, part, first, fun result same => ?_⟩
    cases same

namespace Engine

/-- Runs of an engine in which the observer at some place keeps a record that nothing else touches. -/
structure RecordAt (e : Engine ω α) (equation : Equation ω α) (heard : ω → List (Message α)) (n : Nat) : Prop where
  rate : equation.toRate.Leaves heard
  handlers : ∀ watch ∈ e.watches, watch.1.Leaves heard
  observers : Observer.RecordAt heard n e.observers

omit [Spacing α] in
/-- What is known of all registered handlers is known of those that a run watches. -/
theorem forall_watched {e : Engine ω α} {H : Handler ω α → Prop} (handlers : ∀ watch ∈ e.watches, H watch.1) :
    ∀ c ∈ (Monitor.create e.watches).channels, H c.handler := by
  intro c mem
  obtain ⟨watch, listed, rfl⟩ := List.mem_map.mp mem
  exact handlers watch listed

/-- A run that is not refused marks none but its last piece as the last one, however it ends, and every observer that
keeps a record is told of the start and of the pieces in order, up to where the run fails. If the run returns, it has
marked its last piece, every observer has become what it becomes by hearing of the start and of all pieces, and all
records hold the start and all pieces. -/
theorem integrate_messages (e : Engine ω α) (equation : Equation ω α) (t0 : α) (y0 : State α) (target : α) (w : ω) :
    let run := (integrate equation t0 y0 target).runFrom (e, w)
    let pieces := run.2.1.journal.pieces
    (∃ refused, e.prepare equation t0 y0 target = .error refused ∧ run = (.error refused, e, w)) ∨
      (∀ p ∈ pieces.dropLast, p.2 = false) ∧
      (∀ heard n, e.RecordAt equation heard n → ∃ messages, heard run.2.2 = heard w ++ messages ∧
        messages <+: Message.ofRun t0 y0 target pieces ∧ (n = 0 → messages.filterMap Message.piece? = pieces) ∧
        (run.1.isOk = true → messages = Message.ofRun t0 y0 target pieces)) ∧
      (run.1.isOk = true → (∃ earlier final, pieces = earlier ++ [(final, true)]) ∧
        List.Forall₂ (Observer.Attends t0 y0 target pieces) e.observers run.2.1.observers) := by
  intro run pieces
  cases prepared : e.prepare equation t0 y0 target with
  | error refused =>
    refine Or.inl ⟨refused, rfl, ?_⟩
    rw [← conduct_refused prepared w]
    exact congrArg (fun x => x.runFrom (e, w)) (integrate_eq_conduct equation t0 y0 target)
  | ok course =>
    right
    rcases ran : (course.run t0 y0).runFrom (Session.start w (Monitor.create e.watches) e.observers) with ⟨outcome, s⟩
    have account := runFrom_integrate prepared w
    rw [ran] at account
    obtain ⟨_, _, unflagged, flagged⟩ := Course.run_pieces rfl rfl ran
    simp only [run, pieces, account]
    refine ⟨unflagged, fun heard n place => ?_, fun returned => ?_⟩
    · obtain ⟨messages, told, part, first, whole⟩ := Course.run_messages (equation_of_prepare prepared ▸ place.rate) rfl
        (forall_watched place.handlers) place.observers ran
      rw [target_of_prepare prepared] at part whole
      refine ⟨messages, told, part, first, fun returned => ?_⟩
      cases outcome with
      | error e => cases returned
      | ok r => exact whole r rfl
    · cases outcome with
      | error e => cases returned
      | ok r => exact ⟨flagged r rfl, integrate_attends account⟩

end Engine

/-- One unknown that grows at a steady rate, for callers with a record. -/
def Equation.diary : Equation (List (Message Rat)) Rat where
  eval _ _ := pure (.ofList [1])
  onCompile := pure ()
  compiled _ _ := .ok (.ofList [1])
  dimension := 1
  label := "diary"

/-- An engine with a timer inside its only step and one at the end of it, and with an observer that keeps a record. -/
def Engine.diary : Engine (List (Message Rat)) Rat where
  stepper := ⟨.euler, false⟩
  stepSize := 1
  maxSteps := 100
  watches := [1 / 2, 1].map fun c =>
    ((SwitchingFunction.timer c .carryOn (.ofList [0])).toHandler, ⟨none, 1 / 100, 100, none⟩)
  observers := [.custom (fun t y target => modify (· ++ [.start t y target]))
    fun piece last => modify (· ++ [.piece (piece, last)])]
  status := none
  evaluations := 0
  accepted := 0
  journal := []

/-- The record of a run with an event inside its step and one exactly at its end. -/
theorem Engine.diary_messages :
    letI := Spacing.gapless
    let run := (integrate .diary 0 (.ofList [0]) 1).runFrom (diary, [])
    diary.RecordAt .diary id 0 ∧ run.1 = .ok (1, .ofList [1]) ∧
      run.2.2 = Message.ofRun 0 (.ofList [0]) 1 run.2.1.journal.pieces ∧
      run.2.1.journal.pieces.map (fun p => (p.1.start, p.1.stop, p.2)) = [(0, 1 / 2, false), (1 / 2, 1, true)] := by
  let := Spacing.gapless
  intro run
  have silent {β : Type} (b : β) : (pure b : Effect (List (Message Rat)) Rat β).Leaves id := fun _ => rfl
  have place : diary.RecordAt .diary id 0 := by
    refine ⟨⟨fun _ _ => silent _, silent _⟩, fun watch mem => ?_, .here ?_ fun _ mem => ?_⟩
    · obtain ⟨c, _, rfl⟩ := List.mem_map.mp mem
      exact ⟨fun _ _ _ => silent _, fun _ _ => silent _, fun _ _ _ => silent _, fun _ _ => silent _⟩
    · exact ⟨fun _ _ _ _ => rfl, fun _ _ _ => rfl⟩
    · cases mem
  have returned : run.1 = .ok (1, .ofList [1]) := by decide +kernel
  rcases integrate_messages diary .diary 0 (.ofList [0]) 1 [] with ⟨refused, _, same⟩ | ⟨_, recorded, _⟩
  · rw [congrArg Prod.fst same] at returned
    cases returned
  · obtain ⟨messages, told, _, _, whole⟩ := recorded id 0 place
    refine ⟨place, returned, ?_, by decide +kernel⟩
    rw [← whole (returned ▸ rfl)]
    exact told

end Trajectory
