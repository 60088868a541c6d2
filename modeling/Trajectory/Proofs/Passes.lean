import Mathlib.Tactic
import Trajectory.Proofs.Delivery
import Trajectory.Proofs.Reuse

/-!
The passes of a run, one after the other.

A pass that succeeds has handed over one piece within the budget, and the piece carries the flag of the last one
exactly if the run ends with it (`Course.pass_ok`). A run is therefore determined by the points between its passes
(`Course.Arrives.ahead`), and it ends before its first pass or in one of them (`Course.run_ends`). So only the last
piece of a run may carry the flag, however the run ends (`Course.run_pieces`), and it does if the run returns, at the
end of that piece (`Engine.integrate_final`). None of this depends on the scalars.
-/

namespace Trajectory

open Effect

variable {σ ω α β γ ι : Type}

namespace Effect

/-- A computation that leaves what is read of a state as it is, however it ends. -/
def Leaves (read : σ → ι) (x : Effect σ α β) : Prop := ∀ s, read (x.runFrom s).2 = read s

variable {read : σ → ι}

theorem Leaves.eq {x : Effect σ α β} (leaves : x.Leaves read) {s s' : σ} {r : Except (Error α) β}
    (ran : x.runFrom s = (r, s')) : read s' = read s := by
  have same := leaves s
  rwa [ran] at same

theorem leaves_lift (x : Except (Error α) β) : (liftM x : Effect σ α β).Leaves read := by
  intro s
  rw [runFrom_lift]

theorem leaves_bind {x : Effect σ α β} {f : β → Effect σ α γ} (first : x.Leaves read) (rest : ∀ b, (f b).Leaves read) :
    (x >>= f).Leaves read := by
  intro s
  have same := first s
  rw [runFrom_bind]
  generalize x.runFrom s = result at same ⊢
  rcases result with ⟨e | b, s'⟩
  · exact same
  · exact (rest b s').trans same

end Effect

/-- Whether a pass is the last one. -/
def Progress.isFinished : Progress α → Bool
  | .finished _ _ => true
  | .onward _ => false

/-- A handover of the last piece, at whose end the run ends, if it ends there. -/
def Handover.Closes (h : Handover ω α) : Prop :=
  ∀ s t y s', h.rest.runFrom s = (.ok (.finished t y), s') → h.last = true ∧ h.piece.stop = t

variable [Scalar α] {course : Course ω α} {leg : Leg α} {window : Window α} {phase : Phase α} {s s' : Session ω α}
  {t0 : α} {y0 : State α} {s₀ : Session ω α}

namespace Course

theorem restart_finished {t t' : α} {y y' : State α} {atEnd : Bool}
    (ran : (restart t y atEnd).runFrom s = (.ok (.finished t' y'), s')) : atEnd = true ∧ t = t' := by
  obtain ⟨_, _, _, left⟩ := runFrom_bind_ok.mp ran
  cases atEnd with
  | true =>
    cases left
    exact ⟨rfl, rfl⟩
  | false => cases left

theorem closes_settling (leg : Leg α) (window : Window α) : (settling leg window : Handover ω α).Closes := by
  intro s t y s' ran
  obtain ⟨_, _, _, left⟩ := runFrom_bind_ok.mp ran
  cases last : leg.last with
  | true =>
    rw [last] at left
    cases left
    exact ⟨last, rfl⟩
  | false =>
    rw [last] at left
    cases left

variable [Spacing α]

/-- A run that ends after a group of events was stopped there, or has reached the end of its last step. -/
theorem resume_finished {t t' : α} {y y' : State α} {verdict : Verdict ω α} (whole : window.stop = leg.step.tNext)
    (ran : (course.resume leg window t y (leg.last && t == leg.step.tNext) verdict).runFrom s =
      (.ok (.finished t' y'), s')) : (verdict.isStop || (leg.last && t == leg.step.tNext)) = true ∧ t = t' := by
  cases verdict with
  | stop =>
    simp only [resume, runFrom_bind_ok] at ran
    obtain ⟨_, _, _, left⟩ := ran
    cases left
    exact ⟨rfl, rfl⟩
  | replace index handler =>
    simp only [resume, runFrom_bind_ok] at ran
    obtain ⟨_, _, _, _, _, _, _, _, _, left⟩ := ran
    exact restart_finished left
  | restart => exact restart_finished ran
  | carryOn =>
    simp only [resume, runFrom_bind_ok] at ran
    obtain ⟨_, _, _, left⟩ := ran
    rw [← whole]
    cases ends : t == window.stop with
    | true =>
      rw [ends, if_pos rfl] at left
      cases last : leg.last with
      | true =>
        rw [last] at left
        cases left
        exact ⟨rfl, rfl⟩
      | false =>
        rw [last] at left
        cases left
    | false =>
      rw [ends, if_neg Bool.false_ne_true, runFrom_bind_ok] at left
      obtain ⟨_, _, _, left⟩ := left
      cases left

theorem survey_closes {h : Handover ω α} (whole : window.stop = leg.step.tNext)
    (ran : (course.survey leg window).runFrom s = (.ok h, s')) : h.Closes := by
  obtain ⟨group, _, _, left⟩ := runFrom_bind_ok.mp ran
  cases group with
  | nil =>
    cases left
    exact closes_settling leg window
  | cons first rest =>
    obtain ⟨_, _, _, left⟩ := runFrom_bind_ok.mp left
    simp only [reacting, runFrom_bind_ok] at left
    obtain ⟨_, _, cut, _, _, _, same⟩ := left
    cases same
    obtain ⟨_, _, ends, _, _⟩ := Window.restrict_ok (runFrom_lift_iff.mp cut).1
    intro _ t y _ ran
    obtain ⟨last, same⟩ := resume_finished whole ran
    exact ⟨last, ends.trans same⟩

theorem approach_closes {h : Handover ω α} (whole : phase.Whole)
    (ran : (course.approach phase).runFrom s = (.ok h, s')) : h.Closes := by
  cases phase with
  | scanning leg window => exact survey_closes whole ran
  | stepping t y yp =>
    obtain ⟨leg, _, _, ran⟩ := runFrom_bind_ok.mp ran
    exact survey_closes rfl ran

/-- A pass that succeeds hands over one piece, which the budget allows. It carries the flag of the last piece exactly if
the run ends with the pass, and the run then ends where the piece does. -/
theorem pass_ok {progress : Progress α} (whole : phase.Whole)
    (ran : (course.pass phase).runFrom s = (.ok progress, s')) :
    ∃ piece, s.After [(piece, progress.isFinished)] s' ∧ s.accepted < course.budget ∧
      (∀ next, progress = .onward next → next.Whole) ∧ ∀ t y, progress = .finished t y → piece.stop = t := by
  rw [pass_eq] at ran
  obtain ⟨h, s₁, approached, handed⟩ := runFrom_bind_ok.mp ran
  have idle := course.idle_approach phase _ _ _ approached
  rw [runFrom_handOver] at handed
  split at handed
  · cases handed
  · rename_i affordable
    have fits := approach_ok whole approached
    obtain ⟨after, _, onward⟩ := fits.perform_ok handed
    obtain ⟨_, _, _, rested⟩ := runFrom_bind_ok.mp handed
    have closes := approach_closes whole approached
    have flag : h.last = progress.isFinished := by
      cases progress with
      | onward next => exact (onward next rfl).1
      | finished t y => exact (closes _ _ _ _ rested).1
    refine ⟨h.piece, flag ▸ idle.after.trans after, ?_, fun next goes => (onward next goes).2.2, ?_⟩
    · rw [← idle.accepted]
      exact not_le.mp affordable
    · rintro t y rfl
      exact (closes _ _ _ _ rested).2

/-- From where a run arrives between two passes, it makes the passes that the budget leaves, and one more. -/
theorem Arrives.ahead (fresh : s₀.accepted = 0) (arrives : course.Arrives t0 y0 s₀ phase s) :
    phase.Whole ∧ s.accepted ≤ course.budget ∧
      (course.run t0 y0).runFrom s₀ = (course.passes (course.budget - s.accepted + 1) phase).runFrom s := by
  induction arrives with
  | first begun =>
    have unspent : _ = 0 := (begin_ok begun).1.trans fresh
    refine ⟨trivial, unspent ▸ Nat.zero_le _, ?_⟩
    rw [run_eq, runFrom_bind, begun, unspent]
    rfl
  | @next phase phase' s s' _ passed ih =>
    obtain ⟨whole, _, same⟩ := ih
    obtain ⟨piece, after, affordable, onward, _⟩ := pass_ok whole passed
    have one : s'.accepted = s.accepted + 1 := after.accepted
    refine ⟨onward phase' rfl, by omega, ?_⟩
    rw [same, passes, runFrom_bind, passed]
    have left : course.budget - s.accepted = course.budget - s'.accepted + 1 := by omega
    rw [left]

/-- The pieces handed over before a point between two passes do not carry the flag of the last one. -/
theorem Arrives.unflagged (fresh : s₀.accepted = 0) (arrives : course.Arrives t0 y0 s₀ phase s) :
    ∃ pieces, s.accepted = pieces.length ∧ s.journal.pieces = s₀.journal.pieces ++ pieces ∧
      ∀ p ∈ pieces, p.2 = false := by
  induction arrives with
  | first begun =>
    obtain ⟨accepted, pieces, _⟩ := begin_ok begun
    exact ⟨[], accepted.trans fresh, by rw [pieces, List.append_nil], fun _ mem => absurd mem List.not_mem_nil⟩
  | next earlier passed ih =>
    obtain ⟨pieces, accepted, journal, unflagged⟩ := ih
    obtain ⟨piece, after, _⟩ := pass_ok (earlier.ahead fresh).1 passed
    refine ⟨pieces ++ [(piece, false)], ?_, ?_, fun p mem => ?_⟩
    · rw [after.accepted, accepted, List.length_append]
      rfl
    · rw [after.journal, journal, List.append_assoc]
      rfl
    · rcases List.mem_append.mp mem with before | last
      · exact unflagged p before
      · rw [List.mem_singleton.mp last]

/-- Between two passes a run with a pass that fails, or is the last one, ends with it. -/
theorem Arrives.ends (fresh : s₀.accepted = 0) (arrives : course.Arrives t0 y0 s₀ phase s) :
    (∀ e, (course.pass phase).runFrom s = (.error e, s') → (course.run t0 y0).runFrom s₀ = (.error e, s')) ∧
      ∀ t y, (course.pass phase).runFrom s = (.ok (.finished t y), s') →
        (course.run t0 y0).runFrom s₀ = (.ok (t, y), s') := by
  obtain ⟨_, _, same⟩ := arrives.ahead fresh
  rw [same, passes, runFrom_bind]
  constructor
  · intro e failed
    rw [failed]
  · intro t y finished
    rw [finished]
    rfl

/-- The points of a run at which a window is about to be scanned: all of a new step, or what is left of one. -/
inductive Scans (course : Course ω α) (t0 : α) (y0 : State α) (s₀ : Session ω α) :
    Leg α → Window α → Session ω α → Prop where
  | fresh {t y yp s leg s'} (arrives : course.Arrives t0 y0 s₀ (.stepping t y yp) s)
      (taken : (course.nextLeg t y yp).runFrom s = (.ok leg, s')) : Scans course t0 y0 s₀ leg (.ofStep leg.step) s'
  | left {leg : Leg α} {window : Window α} {s : Session ω α}
      (arrives : course.Arrives t0 y0 s₀ (.scanning leg window) s) :
      Scans course t0 y0 s₀ leg window s

/-- A window is scanned in a pass from a point at which the run arrives, and what is left to do is the rest of it. -/
theorem Scans.pass (scans : course.Scans t0 y0 s₀ leg window s) :
    ∃ phase s₁, course.Arrives t0 y0 s₀ phase s₁ ∧
      (course.pass phase).runFrom s₁ = (course.survey leg window >>= course.handOver).runFrom s := by
  cases scans with
  | left arrives => exact ⟨_, _, arrives, by rw [survey_eq]⟩
  | fresh arrives taken => exact ⟨_, _, arrives, by rw [pass_eq, approach, bind_assoc, runFrom_bind, taken]⟩

/-- The ways in which a run can end: before its first pass, or in a pass, from a point at which it arrives. -/
inductive Outcome (course : Course ω α) (t0 : α) (y0 : State α) (s₀ : Session ω α) :
    Except (Error α) (α × State α) → Session ω α → Prop where
  | unbegun {e s} (failed : (course.begin t0 y0).runFrom s₀ = (.error e, s)) : Outcome course t0 y0 s₀ (.error e) s
  | broken {phase s e s'} (arrives : course.Arrives t0 y0 s₀ phase s)
      (failed : (course.pass phase).runFrom s = (.error e, s')) : Outcome course t0 y0 s₀ (.error e) s'
  | finished {phase s t y s'} (arrives : course.Arrives t0 y0 s₀ phase s)
      (passed : (course.pass phase).runFrom s = (.ok (.finished t y), s')) : Outcome course t0 y0 s₀ (.ok (t, y)) s'

/-- Passes from a point at which a run arrives end the run, if there are more than the budget leaves. -/
theorem Arrives.passes_end (fresh : s₀.accepted = 0) {left : Nat} {r : Except (Error α) (α × State α)}
    (arrives : course.Arrives t0 y0 s₀ phase s) (enough : course.budget < s.accepted + left)
    (ran : (course.passes left phase).runFrom s = (r, s')) : course.Outcome t0 y0 s₀ r s' := by
  induction left generalizing phase s with
  | zero =>
    obtain ⟨_, within, _⟩ := arrives.ahead fresh
    omega
  | succ left ih =>
    rw [passes, runFrom_bind] at ran
    rcases passed : (course.pass phase).runFrom s with ⟨e | ⟨t, y⟩ | next, s₁⟩
    · rw [passed] at ran
      cases ran
      exact .broken arrives passed
    · rw [passed] at ran
      cases ran
      exact .finished arrives passed
    · rw [passed] at ran
      obtain ⟨_, after, _⟩ := pass_ok (arrives.ahead fresh).1 passed
      have one : s₁.accepted = s.accepted + 1 := after.accepted
      exact ih (arrives.next passed) (by omega) ran

/-- A run ends before its first pass or in a pass, and what ends one of these ends the run. -/
theorem run_ends (fresh : s₀.accepted = 0) {r : Except (Error α) (α × State α)} :
    (course.run t0 y0).runFrom s₀ = (r, s') ↔ course.Outcome t0 y0 s₀ r s' := by
  constructor
  · intro ran
    rw [run_eq, runFrom_bind] at ran
    rcases opened : (course.begin t0 y0).runFrom s₀ with ⟨e | yp, s⟩
    · rw [opened] at ran
      cases ran
      exact .unbegun opened
    · rw [opened] at ran
      have unspent : s.accepted = 0 := (begin_ok opened).1.trans fresh
      exact (Arrives.first opened).passes_end fresh (by omega) ran
  · rintro (failed | ⟨arrives, failed⟩ | ⟨arrives, passed⟩)
    · rw [run_eq, runFrom_bind, failed]
    · exact (arrives.ends fresh).1 _ failed
    · exact (arrives.ends fresh).2 _ _ passed

omit [Spacing α] in
/-- What comes before the first step accepts no piece and leaves the journal as it is. -/
theorem leaves_begin (course : Course ω α) (t : α) (y : State α) :
    (course.begin t y).Leaves fun s : Session ω α => (s.accepted, s.latestEntries) := by
  refine leaves_bind ?_ fun yp => leaves_bind (leaves_lift _) fun _ => leaves_bind ?_ fun _ => leaves_bind ?_ fun _ =>
    leaves_lift (.ok yp)
  · exact fun _ => rfl
  · exact fun _ => rfl
  · exact fun _ => rfl

/-- However the handover of a piece ends, it has been counted and noted, and no other has. -/
theorem perform_pieces {h : Handover ω α} {r : Except (Error α) (Progress α)} (fits : h.Fits phase)
    (ran : h.perform.runFrom s = (r, s')) :
    s'.journal.pieces = s.journal.pieces ++ [(h.piece, h.last)] ∧ s'.accepted = s.accepted + 1 := by
  have told : ∀ s₁, ((Session.deliver h.piece h.last).runFrom s).2 = s₁ →
      s₁.journal.pieces = s.journal.pieces ++ [(h.piece, h.last)] ∧ s₁.accepted = s.accepted + 1 := by
    rintro _ rfl
    have entries : ((Session.deliver h.piece h.last).runFrom s).2.latestEntries =
        .accepted h.piece h.last :: s.latestEntries := rfl
    refine ⟨?_, rfl⟩
    simp [Session.journal, Journal.pieces, entries, Entry.piece?]
  rw [Handover.perform, runFrom_bind] at ran
  rcases delivered : (Session.deliver h.piece h.last).runFrom s with ⟨e | ⟨⟩, s₁⟩
  · rw [delivered] at ran told
    cases ran
    exact told _ rfl
  · rw [delivered] at ran told
    obtain ⟨journal, accepted⟩ := told s₁ rfl
    have idle := fits.idle _ _ _ ran
    exact ⟨idle.after.journal.trans (by rw [List.append_nil, journal]), idle.accepted.trans accepted⟩

/-- However a pass ends, it has handed over at most one piece, and only within the budget. -/
theorem pass_pieces {r : Except (Error α) (Progress α)} (whole : phase.Whole) (within : s.accepted ≤ course.budget)
    (ran : (course.pass phase).runFrom s = (r, s')) :
    ∃ pieces, pieces.length ≤ 1 ∧ s'.journal.pieces = s.journal.pieces ++ pieces ∧
      s'.accepted = s.accepted + pieces.length ∧ s'.accepted ≤ course.budget := by
  rw [pass_eq, runFrom_bind] at ran
  rcases approached : (course.approach phase).runFrom s with ⟨outcome, s₁⟩
  have idle := course.idle_approach phase _ _ _ approached
  have journal : s₁.journal.pieces = s.journal.pieces ++ [] := idle.after.journal
  have unspent : s₁.accepted = s.accepted + 0 := idle.accepted
  rw [approached] at ran
  cases outcome with
  | error e =>
    cases ran
    exact ⟨[], Nat.zero_le _, journal, unspent, by omega⟩
  | ok h =>
    dsimp only at ran
    rw [runFrom_handOver] at ran
    split at ran
    · cases ran
      exact ⟨[], Nat.zero_le _, journal, unspent, by omega⟩
    · rename_i affordable
      obtain ⟨handed, counted⟩ := perform_pieces (approach_ok whole approached) ran
      refine ⟨[(h.piece, h.last)], le_rfl, ?_, ?_, by omega⟩
      · rw [handed, journal, List.append_nil]
      · rw [counted, unspent]
        rfl

/-- The last piece of a run that returns carries the flag, alone among all pieces, and ends where the run does. -/
theorem run_final (fresh : s₀.accepted = 0) (empty : s₀.journal.pieces = []) {t : α} {y : State α}
    (ran : (course.run t0 y0).runFrom s₀ = (.ok (t, y), s')) : ∃ earlier final,
      s'.journal.pieces = earlier ++ [(final, true)] ∧ (∀ p ∈ earlier, p.2 = false) ∧ final.stop = t := by
  cases (run_ends fresh).mp ran with
  | finished arrives passed =>
    obtain ⟨pieces, _, journal, unflagged⟩ := arrives.unflagged fresh
    obtain ⟨piece, after, _, _, reached⟩ := pass_ok (arrives.ahead fresh).1 passed
    refine ⟨pieces, piece, ?_, unflagged, reached t y rfl⟩
    rw [after.journal, journal, empty, List.nil_append]
    rfl

/-- However a run ends, it has accepted the pieces of its journal, as many as the budget allows at most, and only the
last of them may carry the flag of the last piece. If the run returns, there is a last one, and it does. -/
theorem run_pieces (fresh : s₀.accepted = 0) (empty : s₀.journal.pieces = []) {r : Except (Error α) (α × State α)}
    (ran : (course.run t0 y0).runFrom s₀ = (r, s')) :
    s'.accepted = s'.journal.pieces.length ∧ s'.accepted ≤ course.budget ∧
      (∀ p ∈ s'.journal.pieces.dropLast, p.2 = false) ∧
      ∀ result, r = .ok result → ∃ earlier final, s'.journal.pieces = earlier ++ [(final, true)] := by
  cases (run_ends fresh).mp ran with
  | unbegun failed =>
    have same := (course.leaves_begin t0 y0).eq failed
    rw [Prod.mk.injEq] at same
    have journal : s'.journal.pieces = [] := by rw [← empty, Session.journal, Session.journal, same.2]
    rw [journal]
    refine ⟨same.1.trans fresh, by omega, fun p mem => absurd mem List.not_mem_nil, fun result returned => ?_⟩
    cases returned
  | @broken phase s e _ arrives failed =>
    obtain ⟨pieces, counted, journal, unflagged⟩ := arrives.unflagged fresh
    obtain ⟨whole, within, _⟩ := arrives.ahead fresh
    obtain ⟨new, few, journal', counted', within'⟩ := pass_pieces whole within failed
    have all : s'.journal.pieces = pieces ++ new := by rw [journal', journal, empty, List.nil_append]
    refine ⟨by rw [all, counted', counted, List.length_append], within', fun p mem => ?_, fun result returned => ?_⟩
    · rw [all] at mem
      cases new with
      | nil =>
        rw [List.append_nil] at mem
        exact unflagged p (List.mem_of_mem_dropLast mem)
      | cons q rest =>
        obtain rfl : rest = [] := List.eq_nil_of_length_eq_zero (Nat.le_zero.mp (Nat.le_of_succ_le_succ few))
        rw [List.dropLast_concat] at mem
        exact unflagged p mem
    · cases returned
  | @finished phase s t y _ arrives passed =>
    obtain ⟨pieces, counted, journal, unflagged⟩ := arrives.unflagged fresh
    obtain ⟨piece, after, affordable, _⟩ := pass_ok (arrives.ahead fresh).1 passed
    have all : s'.journal.pieces = pieces ++ [(piece, true)] := by
      rw [after.journal, journal, empty, List.nil_append]
      rfl
    have one : s'.accepted = s.accepted + 1 := after.accepted
    have length : s'.accepted = s'.journal.pieces.length := by
      rw [all, one, counted, List.length_append]
      rfl
    refine ⟨length, by omega, fun p mem => ?_, fun _ _ => ⟨pieces, piece, all⟩⟩
    rw [all, List.dropLast_concat] at mem
    exact unflagged p mem

end Course

/-- The last piece of a run that returns carries the flag, alone among all pieces, and ends where the run does. -/
theorem Engine.integrate_final [Spacing α] {e e' : Engine ω α} {equation : Equation ω α} {target t : α} {y : State α}
    {w w' : ω} (ran : (integrate equation t0 y0 target).runFrom (e, w) = (.ok (t, y), e', w')) : ∃ earlier final,
      e'.journal.pieces = earlier ++ [(final, true)] ∧ (∀ p ∈ earlier, p.2 = false) ∧ final.stop = t := by
  obtain ⟨course, s', _, finished, rfl, _⟩ := integrate_ok ran
  exact Course.run_final rfl rfl finished

end Trajectory
