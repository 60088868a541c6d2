import Mathlib.Tactic
import Trajectory.Proofs.Delivery
import Trajectory.Proofs.Timer

/-!
The step budget.

The budget is looked at in one place only, before a piece is handed over. So a run that returns is the
same with every budget that allows its pieces, and with a smaller one it does the same up to the first
piece that the budget does not allow, and fails there (`Engine.integrate_withBudget`). This holds for every
kind of scalars.
-/

namespace Trajectory

open Effect

variable {ω α : Type}

/-- The course with another budget. -/
def Course.withBudget (course : Course ω α) (budget : Nat) : Course ω α := { course with budget := budget }

@[simp] theorem Course.withBudget_budget (course : Course ω α) (budget : Nat) :
    (course.withBudget budget).budget = budget := rfl

@[simp] theorem Course.withBudget_target (course : Course ω α) (budget : Nat) :
    (course.withBudget budget).target = course.target := rfl

@[simp] theorem Course.withBudget_equation (course : Course ω α) (budget : Nat) :
    (course.withBudget budget).equation = course.equation := rfl

/-- The engine with another budget. -/
def Engine.withBudget (e : Engine ω α) (budget : Nat) : Engine ω α := { e with maxSteps := budget }

variable [Scalar α] [Spacing α]

namespace Course

variable {course : Course ω α} {phase : Phase α} {s s' : Session ω α} {left : Nat} {r : α × State α}

/-- What a course does up to the acceptance of a piece, and after it, does not depend on the budget. -/
theorem approach_withBudget (course : Course ω α) (budget : Nat) (phase : Phase α) :
    (course.withBudget budget).approach phase = course.approach phase := by
  cases phase <;> rfl

/-- The end of a run that the budget cuts: it has handed over pieces, none of them as the last one, and fails
before the next piece, which a longer run from the same session hands over. -/
structure CutShort (target : α) (budget : Nat) (t0 : α) (s s' : Session ω α)
    (cut : Except (Error α) (α × State α) × Session ω α) (pieces : List (Window α × Bool)) : Prop where
  outcome : cut.1 = .error (.stepsExhausted budget (lastStop t0 pieces) target)
  spent : cut.2.accepted = budget
  after : s.After pieces cut.2
  more : ∀ p ∈ pieces, p.2 = false
  next : ∃ piece last new, s'.latestEntries = new ++ .accepted piece last :: cut.2.latestEntries

/-- A loop that returns, with another budget. The number of passes has to allow for the pieces that this budget
allows. -/
theorem passes_withBudget (whole : phase.Whole) (ran : (course.passes left phase).runFrom s = (.ok r, s'))
    {budget passes : Nat} (enough : budget < s.accepted + passes) (begun : s.accepted ≤ budget) :
    (s'.accepted ≤ budget → ((course.withBudget budget).passes passes phase).runFrom s = (.ok r, s')) ∧
      (budget < s'.accepted → ∃ pieces,
        CutShort course.target budget phase.time s s' (((course.withBudget budget).passes passes phase).runFrom s)
          pieces) := by
  induction left generalizing phase s passes with
  | zero => cases ran
  | succ left ih =>
    cases passes with
    | zero => omega
    | succ passes =>
      obtain ⟨h, s₁, progress, s₂, approached, fits, performed, ending⟩ := passes_ok whole ran
      obtain ⟨handed, ⟨new, entries⟩, onward⟩ := fits.perform_ok performed
      have idle := course.idle_approach phase _ _ _ approached
      have first := idle.after.trans handed
      have accepted : s₂.accepted = s.accepted + 1 := first.accepted
      obtain ⟨pieces, later⟩ := after_of_ending (fun next goes => (onward next goes).2.2) ending
      rw [← course.approach_withBudget budget phase] at approached
      have other := runFrom_passes passes approached
      rw [idle.accepted, withBudget_budget, withBudget_target] at other
      by_cases spent : budget ≤ s.accepted
      · -- The other budget is spent: its loop fails where this one hands over the piece.
        rw [if_pos spent] at other
        constructor
        · intro fits
          have grown := later.accepted
          omega
        · intro _
          obtain ⟨new', entries', _⟩ := later.entries
          rw [other]
          exact ⟨[], by rw [fits.start]; rfl, by rw [idle.accepted]; omega, idle.after, by simp,
            h.piece, h.last, new' ++ new, by simp [entries', entries]⟩
      · rw [if_neg spent, performed] at other
        rcases ending with ⟨t, y, rfl, rfl, rfl⟩ | ⟨next, rfl, rest⟩
        · exact ⟨fun _ => other, fun short => by omega⟩
        · obtain ⟨more, time, whole'⟩ := onward next rfl
          rw [other]
          have room : budget < s₂.accepted + passes := by omega
          obtain ⟨same, short⟩ := ih whole' rest room (by omega)
          refine ⟨same, fun less => ?_⟩
          obtain ⟨pieces', cut⟩ := short less
          refine ⟨(h.piece, h.last) :: pieces', ?_, cut.spent, first.trans cut.after, ?_, cut.next⟩
          · rw [cut.outcome, time]
            rfl
          · rintro p (_ | ⟨_, mem⟩)
            · exact more
            · exact cut.more p mem

/-- The account of a run that the budget cuts, if the run began without pieces: it holds the first pieces of the
longer run, and the error names the end of the last of them. -/
theorem CutShort.account {target : α} {budget : Nat} {t0 : α} {cut : Except (Error α) (α × State α) × Session ω α}
    {pieces : List (Window α × Bool)} (short : CutShort target budget t0 s s' cut pieces) (fresh : s.accepted = 0)
    (empty : s.journal.pieces = []) (positive : 0 < budget) :
    cut.2.journal.pieces = pieces ∧ ∃ final next last after,
      cut.1 = .error (.stepsExhausted budget final.stop target) ∧
      s'.journal = cut.2.journal ++ .accepted next last :: after ∧ pieces = s'.journal.pieces.take budget ∧
      pieces.getLast? = some (final, false) := by
  obtain ⟨outcome, spent, after, more, next, last, later, longer⟩ := short
  have length : pieces.length = budget := by
    rw [← spent, after.accepted, fresh, Nat.zero_add]
  have held : cut.2.journal.pieces = pieces := after.journal.trans (congrArg (· ++ pieces) empty)
  have whole : s'.journal = cut.2.journal ++ .accepted next last :: later.reverse := by
    simp [Session.journal, longer]
  have first : pieces = s'.journal.pieces.take budget := by
    rw [whole, Journal.pieces, List.filterMap_append]
    change pieces = (cut.2.journal.pieces ++ _).take budget
    rw [held, ← length, List.take_left]
  refine ⟨held, ?_⟩
  -- As the budget is not zero, the run has a last piece, at whose end it fails.
  obtain empty | ⟨earlier, ⟨final, flag⟩, ends⟩ := pieces.eq_nil_or_concat
  · rw [empty] at length
    exact absurd positive (by simp [← length])
  · rw [List.concat_eq_append] at ends
    obtain rfl : flag = false := more (final, flag) (by simp [ends])
    exact ⟨final, next, last, later.reverse, by rw [outcome, ends, lastStop_concat], whole, first, by simp [ends]⟩

end Course

namespace Engine

variable {e e' : Engine ω α} {equation : Equation ω α} {t0 target : α} {y0 : State α} {course : Course ω α} {w w' : ω}

omit [Spacing α] in
theorem prepare_withBudget (prepared : e.prepare equation t0 y0 target = .ok course) (budget : Nat) :
    (e.withBudget budget).prepare equation t0 y0 target = .ok (course.withBudget budget) := by
  simp only [prepare, except_bind_ok, except_guard_ok] at prepared ⊢
  obtain ⟨_, bounded, _, sized, apart, h, signed, same⟩ := prepared
  cases same
  exact ⟨_, bounded, _, sized, apart, h, signed, rfl⟩

/-- The run of an engine that returns, and the run with another budget. If the other budget allows the accepted
pieces, the two are the same in every respect. If it allows fewer pieces, but at least one, the other run does the
same up to the piece that is one too many: it locates and asks about the events that would end this piece, and
fails before it accepts it. Every observer has then heard of the start and of exactly the pieces before it, none of
which is the last one. -/
theorem integrate_withBudget {t : α} {y : State α}
    (ran : (integrate equation t0 y0 target).runFrom (e, w) = (.ok (t, y), e', w')) (budget : Nat) :
    let other := (integrate equation t0 y0 target).runFrom (e.withBudget budget, w)
    (e'.accepted ≤ budget → other = (.ok (t, y), e'.withBudget budget, w')) ∧
      (0 < budget → budget < e'.accepted → ∃ final next last after,
        other.1 = .error (.stepsExhausted budget final.stop target) ∧
        e'.journal = other.2.1.journal ++ .accepted next last :: after ∧
        other.2.1.journal.pieces = e'.journal.pieces.take budget ∧
        other.2.1.journal.pieces.getLast? = some (final, false) ∧
        (∀ p ∈ other.2.1.journal.pieces, p.2 = false) ∧ other.2.1.accepted = budget ∧
        other.2.1.status = some .failed ∧
        List.Forall₂ (Observer.Attends t0 y0 target other.2.1.journal.pieces) e.observers other.2.1.observers) := by
  intro other
  obtain ⟨course, s', prepared, finished, rfl, rfl⟩ := integrate_ok ran
  have account : other = _ := runFrom_integrate (prepare_withBudget prepared budget) w
  obtain rfl := target_of_prepare prepared
  obtain ⟨yp, begun, rest, alike, fresh, empty, started⟩ := Course.run_ok finished
  have opened := alike (course.withBudget budget) rfl rfl
  have whole : (Phase.stepping t0 y0 (some yp)).Whole := trivial
  have room : budget < begun.accepted + (budget + 1) := by omega
  have less := Course.passes_withBudget whole rest room (fresh ▸ Nat.zero_le budget)
  have same : (Session.start w (Monitor.create (e.withBudget budget).watches) (e.withBudget budget).observers) =
    Session.start w (Monitor.create e.watches) e.observers := rfl
  rw [same, opened, Course.withBudget_budget] at account
  constructor
  · intro enough
    rw [account, less.1 enough]
    rfl
  · intro positive short
    obtain ⟨pieces, cut⟩ := less.2 short
    rw [account]
    generalize ((course.withBudget budget).passes (budget + 1) (.stepping t0 y0 (some yp))).runFrom begun = run at cut
    obtain ⟨held, final, next, last, after, outcome, journal, first, ends⟩ := cut.account fresh empty positive
    have heard : List.Forall₂ (Observer.Attends t0 y0 course.target pieces) e.observers run.2.observers := by
      apply forall₂_meet started.flip cut.after.observers
      rintro o _ _ ⟨v, v', told⟩ hears
      exact ⟨o, v, v', told, hears⟩
    dsimp only [told]
    rw [held, outcome]
    exact ⟨final, next, last, after, rfl, journal, first, ends, cut.more, cut.spent, rfl, heard⟩

/-- A run of three steps, the second of which an event splits, is the same with a budget of four pieces, and fails
with a budget of two. -/
theorem timer_withBudget :
    letI := Spacing.gapless
    let timer := timed 1 [(.timer (3 / 2) .carryOn (.ofList [0]), ⟨none, 1 / 100, 100, none⟩)]
    let run (budget : Nat) := (integrate .steady 0 (.ofList [0]) 3).runFrom (timer.withBudget budget, ())
    (run 100).1.isOk = true ∧ (run 4).1 = (run 100).1 ∧
      ∃ final : Window Rat, (run 2).1 = .error (.stepsExhausted 2 final.stop 3) ∧
        (run 2).2.1.journal.pieces = (run 100).2.1.journal.pieces.take 2 := by
  let := Spacing.gapless
  intro timer run
  have returned : (run 100).1.isOk = true := by decide +kernel
  have accepted : (run 100).2.1.accepted = 4 := by decide +kernel
  cases outcome : (run 100).1 with
  | error e =>
    rw [outcome] at returned
    cases returned
  | ok p =>
    have ran : run 100 = (.ok (p.1, p.2), (run 100).2.1, (run 100).2.2) := Prod.ext outcome rfl
    have enough := (integrate_withBudget ran 4).1 accepted.le
    obtain ⟨final, _, _, _, failed, _, pieces, _⟩ :=
      (integrate_withBudget ran 2).2 (by decide) (by rw [accepted]; decide)
    exact ⟨rfl, congrArg Prod.fst enough, final, failed, pieces⟩

end Engine

end Trajectory
