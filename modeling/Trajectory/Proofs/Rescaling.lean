import Mathlib.Tactic
import Trajectory.Proofs.Symmetry.Engine
import Trajectory.Proofs.Timer

/-!
Rescaled switching functions.

A run locates its events by the zeros and the signs of the switching functions. If each of these is
multiplied by a constant of its own other than zero, the run does the same: it ends in the same way,
even in the same error, and its journal differs only in the direction of the crossings of those
functions whose constant is negative (`Engine.integrate_rescaled`). A handler with a negative constant
listens to crossings in the other direction, and its action is told of the direction before the change.
-/

namespace Trajectory

variable {ω : Type} {c : Nat → Rat}

/-- Time is left as it is, and the switching function at each place is multiplied by its constant. -/
def Symmetry.rescaled (c : Nat → Rat) (nonzero : ∀ i, c i ≠ 0) : Symmetry where
  sign := 1
  factor := c
  unit := Or.inl rfl
  nonzero := nonzero

/-- The direction of a crossing after the multiplication with a constant. -/
def turned (c : Rat) (increasing : Bool) : Bool := if 0 < c then increasing else !increasing

/-- The handler whose switching function is multiplied by a constant. -/
def Handler.rescaled (c : Rat) (handler : Handler ω Rat) : Handler ω Rat where
  init := handler.init
  g t y := (fun x => c * x) <$> handler.g t y
  eventOccurred t y increasing := handler.eventOccurred t y (turned c increasing)
  resetState := handler.resetState
  direction := if 0 < c then handler.direction else -handler.direction

/-- The occurrence of an event, seen through the multiplied switching function. -/
def Occurrence.turned (c : Nat → Rat) (o : Occurrence Rat) : Occurrence Rat :=
  { o with increasing := Trajectory.turned (c o.index) o.increasing }

/-- An entry of a journal, with the crossings seen through the multiplied switching functions. -/
def Entry.turned (c : Nat → Rat) : Entry Rat → Entry Rat
  | .located window group => .located window (group.map (Occurrence.turned c))
  | .asked o y => .asked (o.turned c) y
  | e => e

/-- The engine whose switching functions are multiplied by constants, the account of its last run
included. -/
def Engine.rescaled (c : Nat → Rat) (e : Engine ω Rat) : Engine ω Rat :=
  { e with
    watches := e.watches.mapIdx fun i watch => (watch.1.rescaled (c i), watch.2)
    journal := e.journal.map (Entry.turned c) }

namespace Symmetry

variable {nonzero : ∀ i, c i ≠ 0}

@[simp] theorem time_rescaled (t : Rat) : (rescaled c nonzero).time t = t := one_mul t

@[simp] theorem rate_rescaled (k : State Rat) : (rescaled c nonzero).rate k = k := Tensor.one_smul k

@[simp] theorem way_rescaled (forward : Bool) : (rescaled c nonzero).way forward = forward := if_pos one_pos

@[simp] theorem turn_rescaled (i : Nat) (increasing : Bool) :
    (rescaled c nonzero).turn i increasing = turned (c i) increasing := rfl

@[simp] theorem row_rescaled (entry : Rat × State Rat) : (rescaled c nonzero).row entry = entry := by
  simp [row]

end Symmetry

section

variable {nonzero : ∀ i, c i ≠ 0}

@[simp] theorem Step.image_rescaled (s : Step Rat) : s.image (.rescaled c nonzero) = s := by
  simp [image]

@[simp] theorem Window.image_rescaled (w : Window Rat) : w.image (.rescaled c nonzero) = w := by
  simp [image]

@[simp] theorem Equation.image_rescaled (equation : Equation ω Rat) :
    equation.image (.rescaled c nonzero) = equation := by
  have same : (Symmetry.rescaled c nonzero).rate = id := funext Symmetry.rate_rescaled
  have kept : ∀ r : Except (Error Rat) (State Rat), r.map id = r := fun r => Except.map_id ▸ rfl
  simp [image, Rate.image, same, kept]

theorem Handler.image_rescaled (handler : Handler ω Rat) (i : Nat) :
    handler.image (.rescaled c nonzero) i = handler.rescaled (c i) := by
  simp only [image, rescaled, Symmetry.time_rescaled, Symmetry.turn_rescaled]
  rfl

theorem Entry.image_rescaled : Entry.image (.rescaled c nonzero) = Entry.turned c := by
  have seen : Occurrence.image (.rescaled c nonzero) = Occurrence.turned c := by
    funext o
    simp [Occurrence.image, Occurrence.turned]
  funext e
  cases e <;> simp [image, turned, seen]

/-- Every error is its own image, as its times are. -/
theorem Error.alike_rescaled {e e' : Error Rat} : e.Alike (.rescaled c nonzero) e' ↔ e' = e := by
  have same : e.image (.rescaled c nonzero) = e := by
    cases e <;> simp [image]
  rw [Alike, same, or_self]

/-- An observer is its own image before a run. -/
theorem Observer.image_rescaled (o : Observer ω Rat) (spaced : ∀ n, o = .normalizer n → 0 < n.spacing) :
    o.Image (.rescaled c nonzero) False o := by
  have rows : (Symmetry.rescaled c nonzero).row = id := funext Symmetry.row_rescaled
  have times : (Symmetry.rescaled c nonzero).time = id := funext Symmetry.time_rescaled
  cases o with
  | recorder r =>
    have image : r.image (.rescaled c nonzero) = r := by simp [Recorder.image, rows]
    have known : (recorder (ω := ω) r).Image (.rescaled c nonzero) False _ := .recorder r
    rwa [image] at known
  | sampler s => exact .sampler ⟨by simp [times], by simp [rows], False.elim, False.elim⟩
  | normalizer n =>
    exact .normalizer ⟨spaced n rfl, rfl, by simp, False.elim, False.elim, False.elim, False.elim, False.elim⟩
  | tracker k => exact .tracker ⟨by simp, by simp [times], rfl, rfl, rfl, by simp, by simp [times]⟩
  | custom onStart onPiece =>
    have known : (custom onStart onPiece).Image (.rescaled c nonzero) False _ := .custom onStart onPiece
    simpa using known

end

/-- The rescaled run hands on the same pieces. -/
@[simp] theorem Journal.pieces_turned (j : Journal Rat) : Journal.pieces (j.map (Entry.turned c)) = j.pieces := by
  have kept : Entry.piece? ∘ Entry.turned c = Entry.piece? := by
    funext e
    cases e <;> rfl
  rw [pieces, pieces, List.filterMap_map, kept]

namespace Engine

variable [Spacing Rat] {e : Engine ω Rat}

/-- The run of a usable engine, and the run with every switching function multiplied by a constant other
than zero, from the same state of the caller. Both return the same time and state or fail with the same
error, hand on the same pieces, and evaluate and accept as often; the journals are the same but for the
direction of the crossings of the functions with a negative constant. The observers have heard the same.
A normalizer, as every one that the library creates, needs a positive spacing. -/
theorem integrate_rescaled (usable : e.Usable) (nonzero : ∀ i, c i ≠ 0)
    (spaced : ∀ n, .normalizer n ∈ e.observers → 0 < n.spacing) (equation : Equation ω Rat) (t0 : Rat)
    (y0 : State Rat) (target : Rat) (w : ω) :
    let run := (integrate equation t0 y0 target).runFrom (e, w)
    let other := (integrate equation t0 y0 target).runFrom (e.rescaled c, w)
    other.1 = run.1 ∧ other.2.1.journal = run.2.1.journal.map (Entry.turned c) ∧
      other.2.1.journal.pieces = run.2.1.journal.pieces ∧ other.2.1.evaluations = run.2.1.evaluations ∧
      other.2.1.accepted = run.2.1.accepted ∧ other.2.1.status = run.2.1.status ∧
      List.Forall₂ (Observer.Image (.rescaled c nonzero) False) run.2.1.observers other.2.1.observers ∧
      other.2.2 = run.2.2 := by
  intro run other
  have heard : List.Forall₂ (Observer.Image (.rescaled c nonzero) False) e.observers e.observers :=
    List.forall₂_same.mpr fun o listed => o.image_rescaled fun n same => spaced n (same ▸ listed)
  have watches : Indexed (fun i watch watch' => watch' = (watch.1.image (.rescaled c nonzero) i, watch.2)) 0
      e.watches (e.rescaled c).watches := by
    apply Indexed.of_mapIdx
    intro i watch
    rw [watch.1.image_rescaled, Nat.zero_add]
  have image : e.Image (.rescaled c nonzero) (e.rescaled c) :=
    ⟨rfl, rfl, rfl, watches, .of_forall₂ heard 0, rfl, rfl, rfl, by rw [Entry.image_rescaled]; rfl⟩
  have alike := agree_integrate usable (Or.inl rfl) image equation t0 y0 target w
  rw [equation.image_rescaled, Symmetry.time_rescaled, Symmetry.time_rescaled] at alike
  obtain ⟨matched, account, world⟩ := alike
  have journal : other.2.1.journal = run.2.1.journal.map (Entry.turned c) := by
    rw [account.journal, Entry.image_rescaled]
  have outcome : other.1 = run.1 := by
    apply Matched.eq
    apply matched.imp
    · exact fun _ _ => Error.alike_rescaled.mp
    · exact fun p p' related => related.trans (Symmetry.row_rescaled p)
  constructor
  · exact outcome
  exact ⟨journal, by simp [journal], account.evaluations, account.accepted, account.status, account.observers.forall₂,
    world⟩

omit [Spacing Rat] in
/-- A run past the fall of a dip, and the run in which the dip is a hill three times as high. -/
theorem dip_rescaled :
    letI := Spacing.gapless
    let dip := (timed 1 [(.dip (1 / 3) 2, ⟨none, 1 / 100, 100, none⟩)]).addObserver (.recorder .empty)
    let run := (integrate .steady 0 (.ofList [0]) 1).runFrom (dip, ())
    let other := (integrate .steady 0 (.ofList [0]) 1).runFrom (dip.rescaled fun _ => -3, ())
    run.1.isOk = true ∧ run.2.1.journal.notifications ≠ [] ∧ other.1 = run.1 ∧
      other.2.1.journal = run.2.1.journal.map (Entry.turned fun _ => -3) ∧ other.2.1.journal ≠ run.2.1.journal := by
  let := Spacing.gapless
  intro dip run other
  have usable : dip.Usable := (usable_timed (by decide +kernel) (by decide +kernel)).addObserver _
  have spaced : ∀ n, .normalizer n ∈ dip.observers → 0 < n.spacing := by
    intro n listed
    cases List.mem_singleton.mp listed
  obtain ⟨outcome, journal, _⟩ := integrate_rescaled (c := fun _ => -3) usable (fun _ => by decide) spaced .steady 0
    (.ofList [0]) 1 ()
  have returned : run.1.isOk = true := by decide +kernel
  have told : run.2.1.journal.notifications ≠ [] := by decide +kernel
  have differ : run.2.1.journal.map (Entry.turned fun _ => -3) ≠ run.2.1.journal := by decide +kernel
  exact ⟨returned, told, outcome, journal, fun same => differ (journal.symm.trans same)⟩

end Engine

end Trajectory
