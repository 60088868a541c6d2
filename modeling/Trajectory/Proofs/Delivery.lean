import Mathlib.Tactic
import Trajectory.Proofs.Handover

/-!
What a run hands over.

A run that returns has handed over one piece in every pass. After some pieces (`Session.After`) the
session has counted them, its journal holds them, and every observer has heard of exactly these
(`Observer.Hears`). The account of an engine is that of the session of its run
(`Engine.runFrom_integrate`), so that the observers of an engine have heard of the pieces in its journal
(`Engine.integrate_attends`).
-/

namespace Trajectory

open Effect

variable {ω α : Type} [Scalar α] [Spacing α]

/-- What an observer becomes by hearing of some pieces. -/
inductive Observer.Hears : List (Window α × Bool) → Observer ω α → Observer ω α → Prop where
  | none (o) : Hears [] o o
  | next {piece last pieces o o' o'' v v'} (told : (accept piece last).runFrom (o, v) = (.ok (), o', v'))
      (rest : Hears pieces o' o'') : Hears ((piece, last) :: pieces) o o''

/-- What an observer becomes by hearing of the start of a run and of some pieces. -/
def Observer.Attends (t0 : α) (y0 : State α) (target : α) (pieces : List (Window α × Bool)) (o o' : Observer ω α) :
    Prop :=
  ∃ begun v v', (start t0 y0 target).runFrom (o, v) = (.ok (), begun, v') ∧ begun.Hears pieces o'

/-- A session after some pieces have been accepted. -/
structure Session.After (pieces : List (Window α × Bool)) (s s' : Session ω α) : Prop where
  accepted : s'.accepted = s.accepted + pieces.length
  observers : List.Forall₂ (Observer.Hears pieces) s.observers s'.observers
  entries : ∃ new, s'.latestEntries = new ++ s.latestEntries ∧ new.reverse.filterMap Entry.piece? = pieces

namespace Session

variable {s s' s'' : Session ω α} {pieces pieces' : List (Window α × Bool)}

theorem Idle.after (idle : s.Idle s') : s.After [] s' := by
  obtain ⟨new, entries, unaccepted⟩ := idle.entries
  constructor
  · exact idle.accepted
  · rw [idle.observers]
    exact List.forall₂_same.mpr fun o _ => .none o
  · exact ⟨new, entries, by rw [List.filterMap_reverse, unaccepted, List.reverse_nil]⟩

end Session

theorem Observer.Hears.trans {pieces pieces' : List (Window α × Bool)} {o o' o'' : Observer ω α}
    (first : o.Hears pieces o') (second : o'.Hears pieces' o'') : o.Hears (pieces ++ pieces') o'' := by
  induction first with
  | none _ => exact second
  | next told _ ih => exact .next told (ih second)

/-- Before the last piece an observer has heard of the ones before it. -/
theorem Observer.Hears.init {pieces : List (Window α × Bool)} {piece : Window α} {last : Bool} {o o' : Observer ω α}
    (hears : o.Hears (pieces ++ [(piece, last)]) o') :
    ∃ before v v', o.Hears pieces before ∧ (accept piece last).runFrom (before, v) = (.ok (), o', v') := by
  induction pieces generalizing o with
  | nil =>
    cases hears with
    | next told rest =>
      cases rest
      exact ⟨o, _, _, .none o, told⟩
  | cons p pieces ih =>
    cases hears with
    | next told rest =>
      obtain ⟨before, v, v', heard, final⟩ := ih rest
      exact ⟨before, v, v', .next told heard, final⟩

namespace Session

variable {s s' s'' : Session ω α} {pieces pieces' : List (Window α × Bool)}

theorem After.trans (first : s.After pieces s') (second : s'.After pieces' s'') : s.After (pieces ++ pieces') s'' := by
  obtain ⟨new, entries, handed⟩ := first.entries
  obtain ⟨new', entries', handed'⟩ := second.entries
  constructor
  · simp [second.accepted, first.accepted, Nat.add_assoc]
  · exact forall₂_meet first.observers.flip second.observers fun _ _ _ earlier later => earlier.trans later
  · exact ⟨new' ++ new, by simp [entries, entries'], by simp [handed, handed']⟩

theorem After.journal (after : s.After pieces s') : s'.journal.pieces = s.journal.pieces ++ pieces := by
  obtain ⟨new, entries, handed⟩ := after.entries
  rw [Session.journal, entries, List.reverse_append, Journal.pieces, List.filterMap_append, handed]
  rfl

/-- A session after a piece has been delivered. -/
theorem deliver_ok {piece : Window α} {last : Bool} (ran : (deliver piece last).runFrom s = (.ok (), s')) :
    s.After [(piece, last)] s' ∧ s'.latestEntries = .accepted piece last :: s.latestEntries := by
  simp only [deliver, runFrom_bind_ok] at ran
  obtain ⟨_, _, counted, _, _, noted, told⟩ := ran
  cases counted
  cases noted
  obtain ⟨⟨os, w⟩, heard, rfl⟩ := runFrom_within_ok.mp told
  refine ⟨⟨rfl, (forEach_ok heard).imp ?_, [.accepted piece last], rfl, rfl⟩, rfl⟩
  rintro o o' ⟨v, v', hears⟩
  exact .next hears (.none o')

end Session

/-- A handover accepts its piece and no other. -/
theorem Handover.Fits.perform_ok {h : Handover ω α} {phase : Phase α} {s s' : Session ω α} {progress : Progress α}
    (fits : h.Fits phase) (performed : h.perform.runFrom s = (.ok progress, s')) :
    s.After [(h.piece, h.last)] s' ∧
      (∃ new, s'.latestEntries = new ++ .accepted h.piece h.last :: s.latestEntries) ∧
      ∀ next, progress = .onward next → h.last = false ∧ next.time = h.piece.stop ∧ next.Whole := by
  obtain ⟨_, s₁, delivered, rested⟩ := runFrom_bind_ok.mp performed
  obtain ⟨after, entries⟩ := Session.deliver_ok delivered
  have idle := fits.idle _ _ _ rested
  obtain ⟨new, entries', _⟩ := idle.entries
  refine ⟨after.trans idle.after, ⟨new, by rw [entries', entries]⟩, ?_⟩
  rintro next rfl
  exact fits.onward _ _ _ rested

/-- The end of the last of some pieces, or a given time if there are none. -/
def lastStop : α → List (Window α × Bool) → α
  | t, [] => t
  | _, (piece, _) :: pieces => lastStop piece.stop pieces

omit [Scalar α] [Spacing α] in
theorem lastStop_concat (t : α) (pieces : List (Window α × Bool)) (piece : Window α) (last : Bool) :
    lastStop t (pieces ++ [(piece, last)]) = piece.stop := by
  induction pieces generalizing t with
  | nil => rfl
  | cons p pieces ih => exact ih p.1.stop

namespace Course

variable {course : Course ω α} {phase : Phase α} {s s' : Session ω α} {left : Nat} {r : α × State α}

/-- The loop from a pass that has made its way to a handover. -/
theorem runFrom_passes (left : Nat) {h : Handover ω α}
    (approached : (course.approach phase).runFrom s = (.ok h, s')) :
    (course.passes (left + 1) phase).runFrom s =
      if course.budget ≤ s'.accepted then (.error (.stepsExhausted course.budget h.piece.start course.target), s')
      else match h.perform.runFrom s' with
        | (.ok (.finished t y), s'') => (.ok (t, y), s'')
        | (.ok (.onward next), s'') => (course.passes left next).runFrom s''
        | (.error e, s'') => (.error e, s'') := by
  rw [passes, pass_eq, runFrom_bind, runFrom_bind, approached]
  dsimp only
  rw [runFrom_handOver]
  by_cases spent : course.budget ≤ s'.accepted
  · rw [if_pos spent, if_pos spent]
  · rw [if_neg spent, if_neg spent]
    rcases h.perform.runFrom s' with ⟨e | ⟨t, y⟩ | next, s''⟩
    · rfl
    · rfl
    · rfl

/-- A loop that returns has handed over a piece, and either ends there or goes on. -/
theorem passes_ok (whole : phase.Whole) (ran : (course.passes (left + 1) phase).runFrom s = (.ok r, s')) :
    ∃ h s₁ progress s₂, (course.approach phase).runFrom s = (.ok h, s₁) ∧ h.Fits phase ∧
      h.perform.runFrom s₁ = (.ok progress, s₂) ∧
      ((∃ t y, progress = .finished t y ∧ r = (t, y) ∧ s' = s₂) ∨
        ∃ next, progress = .onward next ∧ (course.passes left next).runFrom s₂ = (.ok r, s')) := by
  cases approached : (course.approach phase).runFrom s with
  | mk outcome s₁ =>
    cases outcome with
    | error e =>
      rw [passes, pass_eq, bind_assoc, runFrom_bind, approached] at ran
      cases ran
    | ok h =>
      rw [runFrom_passes left approached] at ran
      split at ran
      · cases ran
      cases performed : h.perform.runFrom s₁ with
      | mk outcome s₂ =>
        rw [performed] at ran
        rcases outcome with e | ⟨t, y⟩ | next
        · cases ran
        · cases ran
          exact ⟨h, s₁, _, _, rfl, approach_ok whole approached, performed, Or.inl ⟨t, y, rfl, rfl, rfl⟩⟩
        · exact ⟨h, s₁, _, s₂, rfl, approach_ok whole approached, performed, Or.inr ⟨next, rfl, ran⟩⟩

/-- A loop that returns has handed over some pieces. -/
theorem passes_after (whole : phase.Whole) (ran : (course.passes left phase).runFrom s = (.ok r, s')) :
    ∃ pieces, s.After pieces s' := by
  induction left generalizing phase s with
  | zero => cases ran
  | succ left ih =>
    obtain ⟨h, s₁, progress, s₂, approached, fits, performed, ending⟩ := passes_ok whole ran
    obtain ⟨handed, _, onward⟩ := fits.perform_ok performed
    have first := (course.idle_approach phase _ _ _ approached).after.trans handed
    rcases ending with ⟨_, _, _, _, rfl⟩ | ⟨next, goes, rest⟩
    · exact ⟨_, first⟩
    · obtain ⟨pieces, later⟩ := ih (onward next goes).2.2 rest
      exact ⟨_, first.trans later⟩

/-- What follows a pass hands over some pieces. -/
theorem after_of_ending {progress : Progress α} (whole : ∀ next, progress = .onward next → next.Whole)
    (ending : (∃ t y, progress = .finished t y ∧ r = (t, y) ∧ s' = s) ∨
      ∃ next, progress = .onward next ∧ (course.passes left next).runFrom s = (.ok r, s')) :
    ∃ pieces, s.After pieces s' := by
  rcases ending with ⟨_, _, _, _, rfl⟩ | ⟨next, goes, rest⟩
  · exact ⟨[], (Session.Idle.refl s').after⟩
  · exact passes_after (whole next goes) rest

omit [Spacing α] in
/-- What comes before the first step tells the observers of the start, and accepts no piece. -/
theorem begin_ok {t0 : α} {y0 yp : State α} (begun : (course.begin t0 y0).runFrom s = (.ok yp, s')) :
    s'.accepted = s.accepted ∧ s'.journal.pieces = s.journal.pieces ∧
      List.Forall₂ (fun o o' => ∃ v v', (Observer.start t0 y0 course.target).runFrom (o, v) = (.ok (), o', v'))
        s.observers s'.observers := by
  simp only [Course.begin, runFrom_bind_ok] at begun
  obtain ⟨_, s₁, called, _, s₂, sized, _, s₃, watched, _, _, told, same⟩ := begun
  cases same
  have idle := ((idle_onTally _ _ _ _ called).trans (idle_lift _ _ _ _ sized)).trans (idle_onMonitor _ _ _ _ watched)
  obtain ⟨new, entries, unaccepted⟩ := idle.entries
  obtain ⟨⟨os, w⟩, heard, rfl⟩ := runFrom_within_ok.mp told
  refine ⟨idle.accepted, ?_, idle.observers ▸ forEach_ok heard⟩
  simp [Session.journal, Journal.pieces, entries, unaccepted]

/-- A run that returns has told its observers of the start, without accepting a piece, and then returned from its
loop. What it does before the loop depends on its equation and its target only. -/
theorem run_ok {t0 : α} {y0 : State α} (ran : (course.run t0 y0).runFrom s = (.ok r, s')) :
    ∃ yp begun, (course.passes (course.budget + 1) (.stepping t0 y0 (some yp))).runFrom begun = (.ok r, s') ∧
      (∀ other : Course ω α, other.equation = course.equation → other.target = course.target →
        (other.run t0 y0).runFrom s = (other.passes (other.budget + 1) (.stepping t0 y0 (some yp))).runFrom begun) ∧
      begun.accepted = s.accepted ∧ begun.journal.pieces = s.journal.pieces ∧
      List.Forall₂ (fun o o' => ∃ v v', (Observer.start t0 y0 course.target).runFrom (o, v) = (.ok (), o', v'))
        s.observers begun.observers := by
  rw [run_eq] at ran
  obtain ⟨yp, begun, opened, rest⟩ := runFrom_bind_ok.mp ran
  refine ⟨yp, begun, rest, fun other same aim => ?_, begin_ok opened⟩
  have alike : other.begin t0 y0 = course.begin t0 y0 := by rw [Course.begin, Course.begin, same, aim]
  rw [run_eq, alike, runFrom_bind, opened]

end Course

namespace Engine

variable {e : Engine ω α} {equation : Equation ω α} {t0 target : α} {y0 : State α} {course : Course ω α}

/-- The engine after a run, with the account of the run. -/
def told (e : Engine ω α) (outcome : Except (Error α) (α × State α)) (s : Session ω α) : Engine ω α :=
  { e with
    observers := s.observers
    status := some (.after outcome)
    evaluations := s.tally.evaluations
    accepted := s.accepted
    journal := s.journal }

theorem runFrom_integrate (prepared : e.prepare equation t0 y0 target = .ok course) (w : ω) :
    let run := (course.run t0 y0).runFrom (Session.start w (Monitor.create e.watches) e.observers)
    (integrate equation t0 y0 target).runFrom (e, w) = (run.1, e.told run.1 run.2, run.2.tally.world) := by
  simp only [integrate, runFrom_bind, runFrom_get, runFrom_lift, prepared, runFrom_modify]
  rfl

/-- Carries out a run in some way, with the account that an engine keeps of it. -/
def conduct (run : Course ω α → Effect (Session ω α) α (α × State α)) (equation : Equation ω α) (t0 : α) (y0 : State α)
    (target : α) : Effect (Engine ω α × ω) α (α × State α) :=
  .of fun (e, w) =>
    match e.prepare equation t0 y0 target with
    | .error refused => (.error refused, e, w)
    | .ok course =>
      match (run course).runFrom (Session.start w (Monitor.create e.watches) e.observers) with
      | (outcome, s) => (outcome, e.told outcome s, s.tally.world)

omit [Spacing α] in
theorem conduct_refused {run : Course ω α → Effect (Session ω α) α (α × State α)} {refused : Error α}
    (prepared : e.prepare equation t0 y0 target = .error refused) (w : ω) :
    (conduct run equation t0 y0 target).runFrom (e, w) = (.error refused, e, w) := by
  simp only [conduct, runFrom_of, prepared]

omit [Spacing α] in
theorem conduct_prepared {run : Course ω α → Effect (Session ω α) α (α × State α)}
    (prepared : e.prepare equation t0 y0 target = .ok course) (w : ω) :
    let ran := (run course).runFrom (Session.start w (Monitor.create e.watches) e.observers)
    (conduct run equation t0 y0 target).runFrom (e, w) = (ran.1, e.told ran.1 ran.2, ran.2.tally.world) := by
  simp only [conduct, runFrom_of, prepared]

theorem integrate_eq_conduct (equation : Equation ω α) (t0 : α) (y0 : State α) (target : α) :
    integrate equation t0 y0 target = conduct (fun course => course.run t0 y0) equation t0 y0 target := by
  apply ext_runFrom
  rintro ⟨e, w⟩
  cases prepared : e.prepare equation t0 y0 target with
  | error refused =>
    rw [conduct_refused prepared]
    simp only [integrate, runFrom_bind, runFrom_get, runFrom_lift, prepared]
  | ok course =>
    rw [conduct_prepared prepared]
    exact runFrom_integrate prepared w

/-- The course of a run that returns. -/
theorem integrate_ok {e' : Engine ω α} {r : α × State α} {w w' : ω}
    (ran : (integrate equation t0 y0 target).runFrom (e, w) = (.ok r, e', w')) :
    ∃ course s', e.prepare equation t0 y0 target = .ok course ∧
      (course.run t0 y0).runFrom (Session.start w (Monitor.create e.watches) e.observers) = (.ok r, s') ∧
      e' = e.told (.ok r) s' ∧ w' = s'.tally.world := by
  cases prepared : e.prepare equation t0 y0 target with
  | error refused =>
    simp only [integrate, runFrom_bind, runFrom_get, runFrom_lift, prepared] at ran
    cases ran
  | ok course =>
    have account := runFrom_integrate prepared w
    rw [ran] at account
    rcases finished : (course.run t0 y0).runFrom (Session.start w (Monitor.create e.watches) e.observers) with
      ⟨outcome, s'⟩
    rw [finished] at account
    cases account
    exact ⟨course, s', rfl, finished, rfl, rfl⟩

omit [Spacing α] in
/-- The course of a run keeps what the run was given. -/
theorem given_of_prepare (prepared : e.prepare equation t0 y0 target = .ok course) :
    course.equation = equation ∧ course.target = target ∧ course.budget = e.maxSteps := by
  simp only [prepare, except_bind_ok, except_guard_ok] at prepared
  obtain ⟨_, _, _, _, _, _, _, same⟩ := prepared
  cases same
  exact ⟨rfl, rfl, rfl⟩

omit [Spacing α] in
theorem equation_of_prepare (prepared : e.prepare equation t0 y0 target = .ok course) : course.equation = equation :=
  (given_of_prepare prepared).1

omit [Spacing α] in
theorem target_of_prepare (prepared : e.prepare equation t0 y0 target = .ok course) : course.target = target :=
  (given_of_prepare prepared).2.1

omit [Spacing α] in
theorem budget_of_prepare (prepared : e.prepare equation t0 y0 target = .ok course) : course.budget = e.maxSteps :=
  (given_of_prepare prepared).2.2

/-- Every observer of a run that returns has heard of its start and of all of its pieces. -/
theorem integrate_attends {e' : Engine ω α} {r : α × State α} {w w' : ω}
    (ran : (integrate equation t0 y0 target).runFrom (e, w) = (.ok r, e', w')) :
    List.Forall₂ (Observer.Attends t0 y0 target e'.journal.pieces) e.observers e'.observers := by
  obtain ⟨course, s', prepared, finished, rfl, rfl⟩ := integrate_ok ran
  obtain ⟨yp, begun, rest, _, _, empty, started⟩ := Course.run_ok finished
  have whole : (Phase.stepping t0 y0 (some yp)).Whole := trivial
  obtain ⟨pieces, after⟩ := Course.passes_after whole rest
  have held : (e.told (.ok r) s').journal.pieces = pieces := after.journal.trans (congrArg (· ++ pieces) empty)
  rw [held]
  rw [target_of_prepare prepared] at started
  apply forall₂_meet started.flip after.observers
  rintro o _ _ ⟨v, v', told⟩ hears
  exact ⟨_, v, v', told, hears⟩

end Engine

end Trajectory
