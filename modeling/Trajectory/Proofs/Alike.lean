import Mathlib.Tactic
import Trajectory.Proofs.Steady

/-!
Two computations side by side.

`Effect.Alike` compares two computations from states that belong together: they have the same outcome,
and the states in which they end belong together again. Computations that are put together from alike
ones in the same way are alike, so that a comparison of two runs only has to look at the parts in which
they differ. A computation of the caller that is alike to itself respects the relation between the
states of the caller (`Effect.Respects`).
-/

namespace Trajectory

variable {σ τ ω α β γ : Type}

namespace Effect

/-- Two computations with the same outcome from states that belong together. They end in states that belong together,
and what they may return is of some kind. -/
def Alike (R : σ → σ → Prop) (P : β → Prop) (x y : Effect σ α β) : Prop :=
  ∀ s t, R s t → (y.runFrom t).1 = (x.runFrom s).1 ∧ R (x.runFrom s).2 (y.runFrom t).2 ∧
    ∀ b, (x.runFrom s).1 = .ok b → P b

/-- A computation that does the same from states of the caller that belong together. -/
def Respects (W : ω → ω → Prop) (x : Effect ω α β) : Prop := Alike W (fun _ => True) x x

section

variable {R : σ → σ → Prop} {P : β → Prop} {Q : γ → Prop}

theorem Alike.runFrom {x y : Effect σ α β} (alike : Alike R P x y) {s s' t : σ} {r : Except (Error α) β} (related : R s t)
    (ran : x.runFrom s = (r, s')) : ∃ t', y.runFrom t = (r, t') ∧ R s' t' ∧ ∀ b, r = .ok b → P b := by
  obtain ⟨same, related', kind⟩ := alike s t related
  rw [ran] at same related' kind
  exact ⟨(y.runFrom t).2, Prod.ext same rfl, related', kind⟩

theorem Alike.mono {x y : Effect σ α β} {P' : β → Prop} (alike : Alike R P x y) (weaker : ∀ b, P b → P' b) :
    Alike R P' x y := by
  intro s t related
  obtain ⟨same, related', kind⟩ := alike s t related
  exact ⟨same, related', fun b returned => weaker b (kind b returned)⟩

theorem alike_pure {b : β} (holds : P b) : Alike R P (pure b : Effect σ α β) (pure b) := by
  refine fun s t related => ⟨rfl, related, fun b' returned => ?_⟩
  cases returned
  exact holds

theorem alike_throw (e : Error α) : Alike R P (throw e : Effect σ α β) (throw e) := by
  refine fun s t related => ⟨rfl, related, fun b' returned => ?_⟩
  cases returned

theorem alike_lift {x : Except (Error α) β} (holds : ∀ b, x = .ok b → P b) :
    Alike R P (liftM x : Effect σ α β) (liftM x) := by
  intro s t related
  rw [runFrom_lift, runFrom_lift]
  exact ⟨rfl, related, holds⟩

theorem alike_bind {x y : Effect σ α β} {f g : β → Effect σ α γ} (first : Alike R P x y)
    (rest : ∀ b, P b → Alike R Q (f b) (g b)) : Alike R Q (x >>= f) (y >>= g) := by
  intro s t related
  obtain ⟨same, related', kind⟩ := first s t related
  rw [runFrom_bind, runFrom_bind]
  rcases ranX : x.runFrom s with ⟨outcome, s'⟩
  rcases ranY : y.runFrom t with ⟨outcome', t'⟩
  rw [ranX, ranY] at same related'
  rw [ranX] at kind
  obtain rfl : outcome' = outcome := same
  cases outcome' with
  | ok b => exact rest b (kind b rfl) s' t' related'
  | error e => exact ⟨rfl, related', fun c returned => by cases returned⟩

/-- What is read of states that belong together may be used in ways that are alike. -/
theorem alike_get {f g : σ → Effect σ α β} (each : ∀ s t, R s t → Alike R P (f s) (g t)) :
    Alike R P (get >>= f) (get >>= g) := by
  intro s t related
  rw [runFrom_bind, runFrom_bind, runFrom_get, runFrom_get]
  exact each s t related s t related

theorem alike_modify {f g : σ → σ} (keeps : ∀ s t, R s t → R (f s) (g t)) :
    Alike R (fun _ => True) (modify f : Effect σ α PUnit) (modify g) :=
  fun s t related => ⟨rfl, keeps s t related, fun _ _ => trivial⟩

theorem alike_ite {p : Prop} [Decidable p] {x x' y y' : Effect σ α β} (first : Alike R P x y)
    (second : Alike R P x' y') : Alike R P (if p then x else x') (if p then y else y') := by
  split
  · exact first
  · exact second

theorem alike_within {S : τ → τ → Prop} {get : τ → σ} {put : σ → τ → τ} {x y : Effect σ α β} (inner : Alike R P x y)
    (read : ∀ s t, S s t → R (get s) (get t)) (written : ∀ s t a b, S s t → R a b → S (put a s) (put b t)) :
    Alike S P (within get put x) (within get put y) := by
  intro s t related
  obtain ⟨same, related', kind⟩ := inner _ _ (read s t related)
  rw [runFrom_within, runFrom_within]
  exact ⟨same, written s t _ _ related related', kind⟩

end

variable {W : ω → ω → Prop}

/-- What is alike on elements that belong together is alike on lists of such elements. -/
theorem alike_forEach {D : σ → σ → Prop} {x y : Effect (σ × ω) α Unit}
    (each : Alike (fun p q => D p.1 q.1 ∧ W p.2 q.2) (fun _ => True) x y) :
    Alike (fun p q => List.Forall₂ D p.1 q.1 ∧ W p.2 q.2) (fun _ => True) (forEach x) (forEach y) := by
  rintro ⟨l, w⟩ ⟨l', w'⟩ ⟨together, world⟩
  change List.Forall₂ D l l' at together
  change W w w' at world
  induction together generalizing w w' with
  | nil => exact ⟨rfl, ⟨.nil, world⟩, fun _ _ => trivial⟩
  | @cons a a' rest rest' first others ih =>
    obtain ⟨same, ⟨first', world'⟩, _⟩ := each (a, w) (a', w') ⟨first, world⟩
    rw [runFrom_forEach_cons, runFrom_forEach_cons]
    rcases ranX : x.runFrom (a, w) with ⟨outcome, b, v⟩
    rcases ranY : y.runFrom (a', w') with ⟨outcome', b', v'⟩
    rw [ranX, ranY] at same first' world'
    obtain rfl : outcome' = outcome := same
    cases outcome' with
    | error e => exact ⟨rfl, ⟨.cons first' others, world'⟩, fun _ _ => trivial⟩
    | ok _ =>
      obtain ⟨same, ⟨others', world''⟩, _⟩ := ih v v' world'
      dsimp only
      exact ⟨same, ⟨.cons first' others', world''⟩, fun _ _ => trivial⟩

theorem respects_lift (x : Except (Error α) β) : (liftM x : Effect ω α β).Respects W := alike_lift fun _ _ => trivial

theorem respects_bind {x : Effect ω α β} {f : β → Effect ω α γ} (first : x.Respects W) (rest : ∀ b, (f b).Respects W) :
    (x >>= f).Respects W := alike_bind first fun b _ => rest b

theorem closed_respects (W : ω → ω → Prop) : Closed fun β (x : Effect ω α β) => x.Respects W :=
  ⟨respects_lift, respects_bind⟩

/-- Every computation does the same from the same state. -/
theorem respects_eq (x : Effect ω α β) : x.Respects Eq := by
  rintro w _ rfl
  exact ⟨rfl, rfl, fun _ _ => trivial⟩

end Effect

end Trajectory
