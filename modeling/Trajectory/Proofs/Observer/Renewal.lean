import Mathlib.Tactic
import Trajectory.Proofs.Alike
import Trajectory.Proofs.Outcome
import Trajectory.Observer

/-!
What an observer keeps of one run for the next.

An observer as it was before its first run (`Observer.renewed`) is determined by what it was made with: the times of
a sampler, the spacing and the callback of a normalizer, the problem of a tracker. Nothing that an observer hears
changes this, however a run ends (`Observer.renewed_start`, `Observer.renewed_accept`), and the start of a run
depends on nothing else (`Observer.runFrom_start`). This holds for every kind of scalars.
-/

namespace Trajectory

open Effect

variable {ω α : Type} {W : ω → ω → Prop}

/-- An observer that does the same from states of the caller that belong together. -/
def Observer.Respects (W : ω → ω → Prop) : Observer ω α → Prop
  | .recorder _ => True
  | .sampler _ => True
  | .normalizer n => ∀ t y last, (n.callback t y last).Respects W
  | .tracker _ => True
  | .custom onStart onPiece => (∀ t y target, (onStart t y target).Respects W) ∧
      ∀ piece last, (onPiece piece last).Respects W

/-- From the same state of the caller, every observer does the same. -/
theorem Observer.respects_eq (o : Observer ω α) : o.Respects Eq := by
  cases o with
  | recorder r => trivial
  | sampler s => trivial
  | normalizer n => exact fun t y last => Effect.respects_eq _
  | tracker k => trivial
  | custom onStart onPiece => exact ⟨fun t y target => Effect.respects_eq _, fun piece last => Effect.respects_eq _⟩

variable [Scalar α]

/-- A normalizer before its first run. -/
def Normalizer.renewed (n : Normalizer ω α) : Normalizer ω α := ⟨n.spacing, n.callback, 0.0, 0, n.spacing, none⟩

namespace Observer

/-- An observer before its first run. -/
def renewed : Observer ω α → Observer ω α
  | .recorder _ => .recorder .empty
  | .sampler s => .sampler (.create s.requested)
  | .normalizer n => .normalizer n.renewed
  | .tracker k => .tracker (.create k.problem)
  | .custom onStart onPiece => .custom onStart onPiece

/-- An observer at the start of a run. -/
def begun (t0 : α) (y0 : State α) (target : α) : Observer ω α → Observer ω α
  | .recorder _ => .recorder (.start t0 y0)
  | .sampler s => .sampler (s.start t0 y0 target)
  | .normalizer n => .normalizer { n with
      t0 := t0
      count := 0
      signedSpacing := if t0 ≤ target then n.spacing else -n.spacing
      lastTime := some t0 }
  | .tracker k => .tracker (k.start t0)
  | .custom onStart onPiece => .custom onStart onPiece

/-- What an observer calls at the start of a run. -/
def opening (t0 : α) (y0 : State α) (target : α) : Observer ω α → Effect ω α Unit
  | .recorder _ => pure ()
  | .sampler _ => pure ()
  | .normalizer n => n.callback t0 y0 false
  | .tracker _ => pure ()
  | .custom onStart _ => onStart t0 y0 target

variable {o : Observer ω α} {t0 target : α} {y0 : State α}

/-- A normalizer is made as it is before its first run. -/
theorem renewed_normalizer {spacing : α} {callback : α → State α → Bool → Effect ω α Unit} {n : Normalizer ω α}
    (created : Normalizer.create spacing callback = .ok n) : (normalizer n).renewed = .normalizer n := by
  rw [Normalizer.create] at created
  split at created
  · cases created
    rfl
  · cases created

/-- At the start of a run an observer forgets the run before it, also if its call fails. -/
theorem runFrom_start (o : Observer ω α) (w : ω) :
    (start t0 y0 target).runFrom (o, w) =
      (((o.opening t0 y0 target).runFrom w).1, o.begun t0 y0 target, ((o.opening t0 y0 target).runFrom w).2) := by
  cases o <;> rfl

theorem begun_renewed : o.renewed.begun t0 y0 target = o.begun t0 y0 target := by cases o <;> rfl

theorem opening_renewed : o.renewed.opening t0 y0 target = o.opening t0 y0 target := by cases o <;> rfl

theorem renewed_begun : (o.begun t0 y0 target).renewed = o.renewed := by cases o <;> rfl

theorem renewed_start (o : Observer ω α) (w : ω) :
    ((start t0 y0 target).runFrom (o, w)).2.1.renewed = o.renewed := by
  rw [runFrom_start]
  exact renewed_begun

theorem renewed_renewed : o.renewed.renewed = o.renewed := by cases o <;> rfl

theorem respects_renewed : o.renewed.Respects W ↔ o.Respects W := by cases o <;> exact Iff.rfl

omit [Scalar α] in
theorem Respects.opening (respects : o.Respects W) : (o.opening t0 y0 target).Respects W := by
  cases o with
  | recorder r => exact respects_lift (.ok ())
  | sampler s => exact respects_lift (.ok ())
  | normalizer n => exact respects t0 y0 false
  | tracker k => exact respects_lift (.ok ())
  | custom onStart onPiece => exact respects.1 t0 y0 target

/-- Observers that were the same before their first runs, and do the same from states of the caller that belong
together. -/
def Akin (W : ω → ω → Prop) (o o' : Observer ω α) : Prop := o'.renewed = o.renewed ∧ o.Respects W

/-- Observers that were the same before their first runs do the same at the start of a run. -/
theorem alike_start (t0 : α) (y0 : State α) (target : α) :
    Alike (fun p q : Observer ω α × ω => p.1.Akin W q.1 ∧ W p.2 q.2) (fun _ => True) (start t0 y0 target)
      (start t0 y0 target) := by
  rintro ⟨o, w⟩ ⟨o', w'⟩ ⟨⟨same, respects⟩, related⟩
  have opened : o'.opening t0 y0 target = o.opening t0 y0 target := by
    rw [← opening_renewed, same, opening_renewed]
  have begun : o'.begun t0 y0 target = o.begun t0 y0 target := by rw [← begun_renewed, same, begun_renewed]
  rw [runFrom_start, runFrom_start, opened, begun]
  obtain ⟨outcome, related', _⟩ := respects.opening w w' related
  have respects' : (o.begun t0 y0 target).Respects W := by
    rw [← respects_renewed, renewed_begun, respects_renewed]
    exact respects
  exact ⟨outcome, ⟨⟨rfl, respects'⟩, related'⟩, fun _ _ => trivial⟩

end Observer

variable [Spacing α]

namespace Normalizer

/-- The same normalizer, made with a spacing and a callback that does the same from states of the caller that belong
together. -/
def Shared (W : ω → ω → Prop) (made : Normalizer ω α) (p q : Normalizer ω α × ω) : Prop :=
  (q.1 = p.1 ∧ p.1.renewed = made) ∧ W p.2 q.2

variable {made : Normalizer ω α} (respects : ∀ t y last, (made.callback t y last).Respects W)

include respects

omit [Spacing α] in
theorem alike_call {n : Normalizer ω α} (same : n.renewed = made) (t : α) (y : State α) (last : Bool) :
    Alike (Shared W made) (fun _ => True) (onSecond (n.callback t y last)) (onSecond (n.callback t y last)) := by
  subst same
  exact alike_within (respects t y last) (fun _ _ shared => shared.2) fun _ _ _ _ shared related => ⟨shared.1, related⟩

theorem alike_report (piece : Window α) (last : Bool) (rounds : Nat) :
    Alike (Shared W made) (fun _ => True) (report piece last rounds) (report piece last rounds) := by
  induction rounds with
  | zero => exact alike_throw _
  | succ rounds ih =>
    apply alike_get
    rintro ⟨_, w⟩ ⟨n, w'⟩ ⟨⟨rfl, same⟩, _⟩
    refine alike_ite (alike_pure trivial) (alike_bind (alike_modify ?_) fun _ _ => ?_)
    · rintro ⟨_, v⟩ ⟨m, v'⟩ ⟨⟨rfl, same⟩, related⟩
      exact ⟨⟨rfl, same⟩, related⟩
    refine alike_bind (alike_lift fun _ _ => trivial) fun y _ => ?_
    exact alike_bind (alike_call respects same _ y _) fun _ _ => ih

theorem alike_accept (piece : Window α) (last : Bool) :
    Alike (Shared W made) (fun _ => True) (accept piece last) (accept piece last) := by
  apply alike_get
  rintro ⟨_, w⟩ ⟨n, w'⟩ ⟨⟨rfl, _⟩, _⟩
  refine alike_bind (alike_report respects piece last _) fun _ _ => alike_get ?_
  rintro ⟨_, v⟩ ⟨m, v'⟩ ⟨⟨rfl, same⟩, _⟩
  refine alike_ite (alike_bind (alike_modify ?_) fun _ _ => alike_call respects same _ _ _) (alike_pure trivial)
  rintro ⟨_, v⟩ ⟨m, v'⟩ ⟨⟨rfl, same⟩, related⟩
  exact ⟨⟨rfl, same⟩, related⟩

end Normalizer

/-- What a tracker measures does not change its problem. -/
theorem Tracker.alike_accept {made : Problem ω α} (piece : Window α) (last : Bool) :
    Alike (fun k k' : Tracker ω α => k' = k ∧ k.problem = made) (fun _ => True) (accept piece last)
      (accept piece last) := by
  have moved {f : Tracker ω α → Tracker ω α} (keeps : ∀ k, (f k).problem = k.problem) :
      Alike (fun k k' : Tracker ω α => k' = k ∧ k.problem = made) (fun _ => True)
        (modify f : Effect (Tracker ω α) α PUnit) (modify f) := by
    apply alike_modify
    rintro k _ ⟨rfl, rfl⟩
    exact ⟨rfl, keeps _⟩
  apply alike_get
  rintro k _ ⟨rfl, _⟩
  refine alike_bind (alike_lift fun _ _ => trivial) fun error _ => alike_bind (moved fun _ => rfl) fun _ _ => ?_
  refine alike_ite (alike_bind (alike_lift fun _ _ => trivial) fun final _ => moved fun _ => rfl) (alike_pure trivial)

namespace Observer

/-- The same observer makes the same of a piece, and stays the observer that it was made as. -/
theorem alike_accept_made {made : Observer ω α} (respects : made.Respects W) (piece : Window α) (last : Bool) :
    Alike (fun p q : Observer ω α × ω => (q.1 = p.1 ∧ p.1.renewed = made) ∧ W p.2 q.2) (fun _ => True)
      (accept piece last) (accept piece last) := by
  rintro ⟨_, w⟩ ⟨o, w'⟩ ⟨⟨rfl, rfl⟩, related⟩
  cases o with
  | recorder r => exact ⟨rfl, ⟨⟨rfl, rfl⟩, related⟩, fun _ _ => trivial⟩
  | sampler s => exact ⟨rfl, ⟨⟨rfl, rfl⟩, related⟩, fun _ _ => trivial⟩
  | normalizer n =>
    obtain ⟨outcome, ⟨⟨same, kept⟩, related'⟩, _⟩ :=
      Normalizer.alike_accept respects piece last (n, w) (n, w') ⟨⟨rfl, rfl⟩, related⟩
    exact ⟨outcome, ⟨⟨congrArg normalizer same, congrArg normalizer kept⟩, related'⟩, fun _ _ => trivial⟩
  | tracker k =>
    obtain ⟨_, ⟨_, kept⟩, _⟩ := Tracker.alike_accept piece last k k ⟨rfl, rfl⟩
    exact ⟨rfl, ⟨⟨rfl, congrArg (fun p => tracker (.create p)) kept⟩, related⟩, fun _ _ => trivial⟩
  | custom onStart onPiece =>
    obtain ⟨outcome, related', _⟩ := respects.2 piece last w w' related
    exact ⟨outcome, ⟨⟨rfl, rfl⟩, related'⟩, fun _ _ => trivial⟩

/-- Whatever an observer hears, it stays the observer that it was made as. -/
theorem renewed_accept (o : Observer ω α) (piece : Window α) (last : Bool) (w : ω) :
    ((accept piece last).runFrom (o, w)).2.1.renewed = o.renewed := by
  obtain ⟨_, ⟨⟨_, kept⟩, _⟩, _⟩ := alike_accept_made o.renewed.respects_eq piece last (o, w) (o, w) ⟨⟨rfl, rfl⟩, rfl⟩
  exact kept

/-- The same observer, if it does the same from states of the caller that belong together. -/
def Same (W : ω → ω → Prop) (o o' : Observer ω α) : Prop := o' = o ∧ o.Respects W

/-- The same observer makes the same of a piece. -/
theorem alike_accept (W : ω → ω → Prop) (piece : Window α) (last : Bool) :
    Alike (fun p q : Observer ω α × ω => p.1.Same W q.1 ∧ W p.2 q.2) (fun _ => True) (accept piece last)
      (accept piece last) := by
  rintro ⟨_, w⟩ ⟨o, w'⟩ ⟨⟨rfl, respects⟩, related⟩
  obtain ⟨outcome, ⟨⟨same, kept⟩, related'⟩, _⟩ :=
    alike_accept_made (respects_renewed.mpr respects) piece last (o, w) (o, w') ⟨⟨rfl, rfl⟩, related⟩
  refine ⟨outcome, ⟨⟨same, ?_⟩, related'⟩, fun _ _ => trivial⟩
  rw [← respects_renewed, kept, respects_renewed]
  exact respects

end Observer

end Trajectory
