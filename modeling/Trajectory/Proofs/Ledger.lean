import Mathlib.Tactic
import Trajectory.Proofs.Engine

/-!
The ledger of a run: how its accepted pieces and its events belong together.

Every piece ends at an event or at the end of its step, and every event is the end of a piece.
`Stage.Balanced` says so for every stage, up to the event that is being worked on; every move keeps
it (`balanced_move`).
-/

namespace Trajectory

open Session

variable {ω : Type}

namespace Journal

/-- The ends of the accepted pieces, with the states there. -/
def boundaries (j : Journal Rat) : List (Rat × State Rat) := j.pieces.map fun (piece, _) => (piece.stop, piece.yStop)

/-- The ends of the accepted pieces, each with the end of the step to which the piece belongs. -/
def ends (j : Journal Rat) : List (Rat × Rat) := j.pieces.map fun (piece, _) => (piece.stop, piece.step.tNext)

/-- The times of the located events, each with the end of the step in which the event lies. -/
def events (j : Journal Rat) : List (Rat × Rat) :=
  j.groups.filterMap fun (window, group) => group.head?.map fun first => (first.t, window.step.tNext)

/-- The marks that lie before the end of their step. -/
def inner (marks : List (Rat × Rat)) : List (Rat × Rat) := marks.filter fun (t, tNext) => t != tNext

theorem inner_append (marks others : List (Rat × Rat)) : inner (marks ++ others) = inner marks ++ inner others :=
  List.filter_append ..

theorem boundaries_fst (j : Journal Rat) : j.boundaries.map Prod.fst = j.ends.map Prod.fst := by
  rw [boundaries, ends, List.map_map, List.map_map]
  rfl

theorem pieces_append (j j' : Journal Rat) : pieces (j ++ j') = j.pieces ++ pieces j' := List.filterMap_append

theorem ends_append (j j' : Journal Rat) : ends (j ++ j') = j.ends ++ ends j' := by
  rw [ends, pieces_append, List.map_append, ends, ends]

theorem events_append (j j' : Journal Rat) : events (j ++ j') = j.events ++ events j' := by
  rw [events, groups, List.filterMap_append, List.filterMap_append]
  rfl

theorem boundaries_append (j j' : Journal Rat) : boundaries (j ++ j') = j.boundaries ++ boundaries j' := by
  rw [boundaries, pieces_append, List.map_append, boundaries, boundaries]

end Journal

/-- The end of a piece, with the end of the step to which it belongs. -/
def Cut.mark (cut : Cut) : Rat × Rat := (cut.piece.stop, cut.piece.step.tNext)

/-- What the ledger still lacks at a stage: the piece up to the event that is being worked on. -/
def Stage.pending : Stage ω → List (Rat × Rat)
  | located _ window first _ => [(first.t, window.step.tNext)]
  | asking cut _ _ => [cut.mark]
  | awaiting cut _ _ _ _ => [cut.mark]
  | decided cut _ _ => [cut.mark]
  | _ => []

/-- The ledger of a run at a stage. -/
structure Stage.Balanced (course : Course ω Rat) (p : Stage ω) (s : Session ω Rat) : Prop where
  counted : s.accepted = s.journal.pieces.length
  affordable : s.accepted ≤ course.budget
  matched : Journal.inner s.journal.events = Journal.inner s.journal.ends ++ Journal.inner p.pending
  reached : ∀ event ∈ s.journal.events, event ∈ s.journal.ends ++ p.pending

variable {course : Course ω Rat} {s s' : Session ω Rat}

theorem Cut.pending_answered (cut : Cut) (o : Occurrence Rat) (handler : Handler ω Rat)
    (rest : List (Occurrence Rat)) (verdict : Verdict ω Rat) (action : Action) :
    (cut.answered o handler rest verdict action).pending = [cut.mark] := by
  cases action <;> rfl

/-- A stage that lacks what an earlier one lacks keeps the ledger balanced if no piece is accepted
and no event is located in between. -/
theorem Stage.Balanced.congr {p q : Stage ω} (balanced : p.Balanced course s) (account : s.SameAccount s')
    (lacks : Journal.inner q.pending = Journal.inner p.pending) (more : ∀ mark ∈ p.pending, mark ∈ q.pending) :
    q.Balanced course s' := by
  refine ⟨?_, ?_, ?_, fun event mem => ?_⟩
  · rw [account.2, account.journal, balanced.counted]
  · rw [account.2]
    exact balanced.affordable
  · rw [account.journal, balanced.matched, lacks]
  · rw [account.journal] at mem ⊢
    rcases List.mem_append.mp (balanced.reached event mem) with done | waiting
    · exact List.mem_append_left _ done
    · exact List.mem_append_right _ (more event waiting)

/-- An entry that neither accepts a piece nor locates an event leaves the ledger as it is. -/
theorem Stage.Balanced.noted {p : Stage ω} (balanced : p.Balanced course s) (e : Entry Rat) (piece : e.piece? = none)
    (group : e.group? = none) : p.Balanced course (s.noted e) := by
  have pieces : (s.noted e).journal.pieces = s.journal.pieces := by
    rw [journal_noted, Journal.pieces_append]
    simp [Journal.pieces, piece]
  have events : (s.noted e).journal.events = s.journal.events := by
    rw [journal_noted, Journal.events_append]
    simp [Journal.events, Journal.groups, group]
  have ends : (s.noted e).journal.ends = s.journal.ends := by rw [Journal.ends, pieces, Journal.ends]
  refine ⟨?_, balanced.affordable, ?_, ?_⟩
  · rw [pieces]
    exact balanced.counted
  · rw [events, ends]
    exact balanced.matched
  · rw [events, ends]
    exact balanced.reached

/-- Every move keeps the ledger balanced. -/
theorem balanced_move [Spacing Rat] {watches : List (Handler ω Rat × Settings Rat)} {t0 : Rat} {p q : Stage ω}
    (move : Move course (p, s) (q, s')) (route : p.OnRoute course watches t0 s.monitor)
    (before : p.Balanced course s) : q.Balanced course s' := by
  cases move with
  | «open» derivative fits watched observed =>
    have account := ((sameAccount_onTally derivative).trans (sameAccount_onMonitor watched)).trans
      (sameAccount_onObservers observed)
    exact before.congr account rfl fun _ mem => mem
  | step taken => exact before.congr (sameAccount_nextLeg taken) rfl fun _ mem => mem
  | @clear leg window _ _ scanned =>
    obtain ⟨covers, _⟩ := route
    have whole : window.stop = window.step.tNext := covers.stop.trans (congrArg Step.tNext covers.step.symm)
    refine before.congr (sameAccount_scan scanned) ?_ fun _ mem => absurd mem List.not_mem_nil
    simp [Stage.pending, Cut.mark, Journal.inner, whole]
  | @locate leg window first rest _ s₁ scanned =>
    have account := sameAccount_scan scanned
    have events : Journal.events [.located window (first :: rest)] = [(first.t, window.step.tNext)] := rfl
    have ends : Journal.ends [.located window (first :: rest)] = [] := rfl
    refine ⟨?_, ?_, ?_, fun event mem => ?_⟩
    · rw [journal_noted, Journal.pieces_append, account.journal]
      exact account.2.trans (before.counted.trans (congrArg List.length (List.append_nil _).symm))
    · exact account.2.le.trans before.affordable
    · rw [journal_noted, Journal.events_append, Journal.ends_append, account.journal, events, ends,
        Journal.inner_append, before.matched]
      simp [Stage.pending, Journal.inner]
    · rw [journal_noted, Journal.events_append, account.journal, events] at mem
      rw [journal_noted, Journal.ends_append, account.journal, ends, List.append_nil]
      rcases List.mem_append.mp mem with earlier | new
      · have done : event ∈ s.journal.ends ++ [] := before.reached event earlier
        rw [List.append_nil] at done
        exact List.mem_append_left _ done
      · exact List.mem_append_right _ new
  | @cut leg window first rest _ piece cut =>
    obtain ⟨step, _, stop, _, _⟩ := Window.truncate_ok cut
    have same : (Stage.asking ⟨leg, window, piece⟩ (first :: rest) .carryOn : Stage ω).pending =
        (Stage.located leg window first rest : Stage ω).pending := by
      change [Cut.mark _] = [_]
      rw [Cut.mark, step, stop]
    exact before.congr (.refl s) (congrArg Journal.inner same) fun _ mem => same ▸ mem
  | ask watched => exact (before.noted (.asked _ _) rfl rfl).congr (.refl _) rfl fun _ mem => mem
  | @answer cut o handler rest verdict action _ _ _ answered acknowledged =>
    have pending := cut.pending_answered o handler rest verdict action
    have told : (cut.answered o handler rest verdict action).Balanced course _ :=
      before.congr (sameAccount_onTally answered) (congrArg Journal.inner pending) fun mark mem =>
        pending.symm ▸ (mem : mark ∈ [_])
    exact (told.noted (.answered _ _) rfl rfl).congr (sameAccount_onMonitor acknowledged) rfl fun _ mem => mem
  | decide => exact before.congr (.refl s) rfl fun _ mem => mem
  | @accept cut last _ _ affordable =>
    have events : Journal.events [.accepted cut.piece last] = [] := rfl
    have ends : Journal.ends [.accepted cut.piece last] = [cut.mark] := rfl
    refine ⟨?_, affordable, ?_, fun event mem => ?_⟩
    · rw [journal_counted, Journal.pieces_append, List.length_append, ← before.counted]
      rfl
    · rw [journal_counted, Journal.events_append, Journal.ends_append, events, ends, List.append_nil,
        Journal.inner_append, before.matched]
      exact (List.append_nil _).symm
    · rw [journal_counted, Journal.events_append, events, List.append_nil] at mem
      rw [journal_counted, Journal.ends_append, ends]
      exact List.mem_append_left _ (before.reached event mem)
  | tell told => exact before.congr (sameAccount_onObservers told) rfl fun _ mem => mem
  | stop => exact (before.noted (.stopped _) rfl rfl).congr (.refl _) rfl fun _ mem => mem
  | replace reset fits =>
    have supplied := before.congr (q := .told _ _) (sameAccount_onTally reset) rfl fun _ mem => mem
    exact (supplied.noted (.replaced _ _ _) rfl rfl).congr (.refl _) rfl fun _ mem => mem
  | restart => exact before.congr (.refl s) rfl fun _ mem => mem
  | @refresh _ _ atEnd _ _ committed =>
    cases atEnd with
    | true => exact before.congr (sameAccount_onMonitor committed) rfl fun _ mem => mem
    | false => exact before.congr (sameAccount_onMonitor committed) rfl fun _ mem => mem
  | resume committed resumed =>
    cases resumed with
    | ended => exact before.congr (sameAccount_onMonitor committed) rfl fun _ mem => mem
    | stepping => exact before.congr (sameAccount_onMonitor committed) rfl fun _ mem => mem
    | scanning => exact before.congr (sameAccount_onMonitor committed) rfl fun _ mem => mem

end Trajectory
