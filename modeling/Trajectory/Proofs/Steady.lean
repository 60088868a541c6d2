import Mathlib.Tactic
import Trajectory.Proofs.Closed
import Trajectory.Proofs.Outcome

/-!
Handlers that keep to themselves.

A computation of the caller is steady if it neither reads nor changes the state of the caller, so that
it has one outcome (`Effect.Steady`). A search along a steady switching function is steady, so a scan of
steady handlers finds in every channel what the channel alone determines (`Channel.steady_firstRoot`),
and a commit and the start of a run change every channel by itself (`Effect.forEach_apart`).
-/

namespace Trajectory

variable {ω α β γ σ : Type}

/-- A computation that neither reads nor changes the state of the caller. -/
def Effect.Steady (x : Effect ω α β) : Prop := ∃ r, ∀ w, x.runFrom w = (r, w)

/-- A handler whose functions, but for the one that supplies a state, are steady. -/
structure Handler.Steady (handler : Handler ω α) : Prop where
  init : ∀ t y target, (handler.init t y target).Steady
  g : ∀ t y, (handler.g t y).Steady
  eventOccurred : ∀ t y increasing, (handler.eventOccurred t y increasing).Steady

namespace Effect

theorem Steady.runFrom {x : Effect ω α β} (steady : x.Steady) {r : Except (Error α) β} {w w' : ω}
    (ran : x.runFrom w = (r, w')) : w' = w ∧ ∀ v, x.runFrom v = (r, v) := by
  obtain ⟨r', always⟩ := steady
  rw [always] at ran
  cases ran
  exact ⟨rfl, always⟩

theorem steady_pure (b : β) : (pure b : Effect ω α β).Steady := ⟨.ok b, fun _ => rfl⟩

theorem steady_lift (x : Except (Error α) β) : (liftM x : Effect ω α β).Steady := ⟨x, runFrom_lift x⟩

theorem steady_bind {x : Effect ω α β} {f : β → Effect ω α γ} (first : x.Steady) (rest : ∀ b, (f b).Steady) :
    (x >>= f).Steady := by
  obtain ⟨r, always⟩ := first
  cases r with
  | error e => exact ⟨.error e, fun w => by rw [runFrom_bind, always]⟩
  | ok b =>
    obtain ⟨r, after⟩ := rest b
    exact ⟨r, fun w => by rw [runFrom_bind, always]; exact after w⟩

theorem closed_steady : Closed fun β (x : Effect ω α β) => x.Steady := ⟨steady_lift, steady_bind⟩

/-- A computation that does the same to an element whatever the state of the caller, and leaves that state alone, is
applied to each element of a list by itself. -/
theorem forEach_apart {x : Effect (σ × ω) α Unit} {f : σ → σ} {l : List σ}
    (apart : ∀ a ∈ l, ∀ w, x.runFrom (a, w) = (.ok (), f a, w)) (w : ω) :
    (forEach x).runFrom (l, w) = (.ok (), l.map f, w) := by
  induction l with
  | nil => rfl
  | cons a rest ih =>
    rw [runFrom_forEach_cons, apart a List.mem_cons_self]
    dsimp only
    rw [ih fun b mem => apart b (List.mem_cons_of_mem a mem)]
    rfl

/-- A computation that succeeds on an element in one way only, and leaves the state of the caller alone. -/
def Apart (P : σ → σ → Prop) (x : Effect (σ × ω) α Unit) (a : σ) : Prop :=
  ∀ w a' w', x.runFrom (a, w) = (.ok (), a', w') → w' = w ∧ P a a' ∧ ∀ v, x.runFrom (a, v) = (.ok (), a', v)

/-- Such a computation changes each element of a list by itself. -/
theorem forEach_apart_ok {P : σ → σ → Prop} {x : Effect (σ × ω) α Unit} {l l' : List σ} {w w' : ω}
    (apart : ∀ a ∈ l, Apart P x a) (ran : (forEach x).runFrom (l, w) = (.ok (), l', w')) :
    w' = w ∧ ∃ f, l' = l.map f ∧ ∀ a ∈ l, P a (f a) ∧ ∀ v, x.runFrom (a, v) = (.ok (), f a, v) := by
  have each : ∀ a ∈ l, P a (x.runFrom (a, w)).2.1 ∧ ∀ v, x.runFrom (a, v) = (.ok (), (x.runFrom (a, w)).2.1, v) := by
    intro a mem
    obtain ⟨i, place⟩ := List.getElem?_of_mem mem
    obtain ⟨a', _, v, v', told⟩ := forall₂_getElem? (forEach_ok ran).flip place
    obtain ⟨_, kept, always⟩ := apart a mem v a' v' told
    rw [always w]
    exact ⟨kept, always⟩
  have whole := forEach_apart (fun a mem => (each a mem).2) w
  rw [ran] at whole
  cases whole
  exact ⟨rfl, _, rfl, each⟩

end Effect

open Effect

variable [Scalar α]

theorem Channel.steady_firstRoot [Spacing α] {c : Channel ω α} {forward : Bool} (steady : c.handler.Steady)
    (w : Window α) : (c.firstRoot forward w).Steady :=
  closed_firstRoot closed_steady forward w steady.g

namespace Monitor

variable {c : Channel ω α} {t target : α} {y : State α}

/-- What a commit does to a channel. -/
theorem apart_commit (steady : c.handler.Steady) :
    Apart (fun c c' : Channel ω α => c'.handler = c.handler ∧ c'.settings = c.settings) (do
      moveReference t y
      changeChannel fun c => if !c.armed && !c.inWindow t then { c with armed := true } else c) c := by
  intro w c' w' ran
  obtain ⟨r, always⟩ := steady.g t y
  simp only [moveReference, changeChannel, runFrom_bind, runFrom_modify, runFrom_get, runFrom_onSecond, always] at ran ⊢
  cases r with
  | error e => cases ran
  | ok value =>
    cases ran
    refine ⟨rfl, ?_, fun v => rfl⟩
    dsimp only
    split
    · exact ⟨rfl, rfl⟩
    · exact ⟨rfl, rfl⟩

omit [Scalar α] in
/-- What the start of a run does to a channel. -/
theorem apart_init (steady : c.handler.Steady) :
    Apart (fun c c' : Channel ω α => c'.handler = c.handler ∧ c'.settings = c.settings) (do
      let (c, _) ← get
      onSecond (c.handler.init t y target)
      changeChannel fun c => { c with lastEvent := none, armed := true }
      moveReference t y) c := by
  intro w c' w' ran
  obtain ⟨r, always⟩ := steady.g t y
  obtain ⟨r', greeted⟩ := steady.init t y target
  cases r' with
  | error e => simp [greeted] at ran
  | ok u =>
    cases r with
    | error e => simp [moveReference, changeChannel, always, greeted] at ran
    | ok value =>
      simp only [moveReference, changeChannel, runFrom_bind, runFrom_modify, runFrom_get, runFrom_onSecond, greeted]
        at ran ⊢
      simp only [always] at ran ⊢
      cases ran
      exact ⟨rfl, ⟨rfl, rfl⟩, fun v => rfl⟩

end Monitor

end Trajectory
