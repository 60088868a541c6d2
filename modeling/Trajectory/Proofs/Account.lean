import Mathlib.Tactic
import Trajectory.Proofs.Closed
import Trajectory.Proofs.Handover
import Trajectory.Proofs.Purity

/-!
What can be said of a run at every moment, however it ends.

`Terms` are two statements about a state: one that holds as long as a computation goes on, and one that holds once it
has failed with some error. Computations that are put together from such as keep the terms keep them as well
(`Effect.Keeps`). An account holds the state of the caller, the number of evaluations begun, and the pieces that have
been handed over (`Account`). If the functions of the caller honour terms on accounts, each of them counting as an
evaluation exactly where a right-hand side is called, every part of a run keeps them, and in the end the whole run
(`Course.meets_run`). What the observers make of the start and of every piece is left open.
-/

namespace Trajectory

variable {σ τ ω α β γ : Type}

namespace Effect

/-- From the states of one kind a computation returns in states of another kind, and fails in states of a third. -/
def Meets (I : σ → Prop) (J : β → σ → Prop) (Q : Error α → σ → Prop) (x : Effect σ α β) : Prop :=
  ∀ s, I s → (∀ b s', x.runFrom s = (.ok b, s') → J b s') ∧ ∀ e s', x.runFrom s = (.error e, s') → Q e s'

variable {I : σ → Prop} {J : β → σ → Prop} {K : γ → σ → Prop} {Q : Error α → σ → Prop}

theorem meets_pure {b : β} (holds : ∀ s, I s → J b s) : (pure b : Effect σ α β).Meets I J Q := by
  refine fun s before => ⟨fun b' s' ran => ?_, fun e s' ran => ?_⟩
  · rw [runFrom_pure] at ran
    cases ran
    exact holds s before
  · rw [runFrom_pure] at ran
    cases ran

theorem meets_throw {e : Error α} (fails : ∀ s, I s → Q e s) : (throw e : Effect σ α β).Meets I J Q := by
  refine fun s before => ⟨fun b s' ran => ?_, fun e' s' ran => ?_⟩
  · rw [runFrom_throw] at ran
    cases ran
  · rw [runFrom_throw] at ran
    cases ran
    exact fails s before

theorem meets_lift {x : Except (Error α) β} (holds : ∀ b s, x = .ok b → I s → J b s)
    (fails : ∀ e s, x = .error e → I s → Q e s) : (liftM x : Effect σ α β).Meets I J Q := by
  cases x with
  | ok b => exact meets_pure fun s => holds b s rfl
  | error e => exact meets_throw fun s => fails e s rfl

theorem meets_bind {x : Effect σ α β} {f : β → Effect σ α γ} (first : x.Meets I J Q)
    (rest : ∀ b, (f b).Meets (J b) K Q) : (x >>= f).Meets I K Q := by
  refine fun s before => ⟨fun c s'' ran => ?_, fun e s'' ran => ?_⟩
  · obtain ⟨b, s', ranX, ranF⟩ := runFrom_bind_ok.mp ran
    exact (rest b s' ((first s before).1 b s' ranX)).1 c s'' ranF
  · rcases runFrom_bind_error.mp ran with failed | ⟨b, s', ranX, ranF⟩
    · exact (first s before).2 e s'' failed
    · exact (rest b s' ((first s before).1 b s' ranX)).2 e s'' ranF

/-- What is read of a state may be used. -/
theorem meets_get {f : σ → Effect σ α β} (each : ∀ s, I s → (f s).Meets I J Q) : (get >>= f).Meets I J Q := by
  intro s before
  rw [runFrom_bind, runFrom_get]
  exact each s before s before

theorem meets_modify {f : σ → σ} {J : PUnit → σ → Prop} (holds : ∀ s, I s → J ⟨⟩ (f s)) :
    (modify f : Effect σ α PUnit).Meets I J Q := by
  refine fun s before => ⟨fun b s' ran => ?_, fun e s' ran => ?_⟩
  · rw [runFrom_modify] at ran
    cases ran
    exact holds s before
  · rw [runFrom_modify] at ran
    cases ran

theorem meets_ite {p : Prop} [Decidable p] {x y : Effect σ α β} (first : x.Meets I J Q) (second : y.Meets I J Q) :
    (if p then x else y).Meets I J Q := by
  split
  · exact first
  · exact second

/-- On a part of a larger state, a computation does what it does on that part alone. -/
theorem meets_within {I' : τ → Prop} {J' : β → τ → Prop} {Q' : Error α → τ → Prop} {get : τ → σ} {put : σ → τ → τ}
    {x : Effect σ α β}
    (inner : ∀ t, I' t → x.Meets (· = get t) (fun b s => J' b (put s t)) fun e s => Q' e (put s t)) :
    (within get put x).Meets I' J' Q' := by
  refine fun t before => ⟨fun b t' ran => ?_, fun e t' ran => ?_⟩
  · obtain ⟨s, returned, rfl⟩ := runFrom_within_ok.mp ran
    exact (inner t before (get t) rfl).1 b s returned
  · rw [runFrom_within, Prod.mk.injEq] at ran
    obtain ⟨failed, rfl⟩ := ran
    exact (inner t before (get t) rfl).2 e _ (Prod.ext failed rfl)

theorem Meets.at {x : Effect σ α β} (meets : x.Meets I J Q) {s : σ} (before : I s) : x.Meets (· = s) J Q := by
  intro t same
  rw [same]
  exact meets s before

theorem Meets.mono {x : Effect σ α β} {I' : σ → Prop} {J' : β → σ → Prop} {Q' : Error α → σ → Prop}
    (meets : x.Meets I J Q) (stronger : ∀ s, I' s → I s) (weaker : ∀ b s, J b s → J' b s)
    (milder : ∀ e s, Q e s → Q' e s) : x.Meets I' J' Q' :=
  fun s before => ⟨fun b s' ran => weaker b s' ((meets s (stronger s before)).1 b s' ran),
    fun e s' ran => milder e s' ((meets s (stronger s before)).2 e s' ran)⟩

/-- What holds of the state that a computation leaves, however it ends. -/
theorem meets_anyway {x : Effect σ α β} {K : σ → Prop} (leaves : ∀ s, I s → K (x.runFrom s).2) :
    x.Meets I (fun _ => K) fun _ => K := by
  intro s before
  have after := leaves s before
  refine ⟨fun b s' ran => ?_, fun e s' ran => ?_⟩
  · rwa [ran] at after
  · rwa [ran] at after

/-- On a list, a computation does what it does on the first element, and then on the others unless it has failed. -/
theorem meets_forEach_cons {x : Effect (σ × ω) α Unit} {a : σ} {rest : List σ} {w : ω} {D : σ → ω → Prop}
    {J : Unit → List σ × ω → Prop} {V : Error α → ω → Prop}
    (first : x.Meets (· = (a, w)) (fun _ p => D p.1 p.2) fun e p => V e p.2)
    (later : ∀ a' v, D a' v →
      (forEach x).Meets (· = (rest, v)) (fun b p => J b (a' :: p.1, p.2)) fun e p => V e p.2) :
    (forEach x).Meets (· = (a :: rest, w)) J fun e p => V e p.2 := by
  rintro _ rfl
  have here := first (a, w) rfl
  rw [runFrom_forEach_cons]
  generalize x.runFrom (a, w) = result at here ⊢
  rcases result with ⟨e | ⟨⟩, a', v⟩
  · refine ⟨fun _ p ran => ?_, fun e' p ran => ?_⟩
    · cases ran
    · cases ran
      exact here.2 e _ rfl
  · have others := later a' v (here.1 () _ rfl) (rest, v) rfl
    dsimp only at others ⊢
    generalize (forEach x).runFrom (rest, v) = result at others ⊢
    rcases result with ⟨outcome, rest', v'⟩
    refine ⟨fun _ p ran => ?_, fun e p ran => ?_⟩
    · cases ran
      exact others.1 () (rest', v') rfl
    · cases ran
      exact others.2 e (rest', v') rfl

/-- What holds of a computation on every element, given what is known of the element and of the state, holds of it on a
list of such elements. -/
theorem meets_forEach {D : σ → Prop} {W : ω → Prop} {V : Error α → ω → Prop} {x : Effect (σ × ω) α Unit}
    (each : x.Meets (fun p => D p.1 ∧ W p.2) (fun _ p => D p.1 ∧ W p.2) fun e p => V e p.2) :
    (forEach x).Meets (fun p => (∀ a ∈ p.1, D a) ∧ W p.2) (fun _ p => (∀ a ∈ p.1, D a) ∧ W p.2) fun e p => V e p.2 := by
  rintro ⟨l, w⟩ ⟨known, before⟩
  dsimp only at known before
  induction l generalizing w with
  | nil =>
    rw [runFrom_forEach_nil]
    refine ⟨fun _ p ran => ?_, fun e p ran => ?_⟩
    · cases ran
      exact ⟨known, before⟩
    · cases ran
  | cons a rest ih =>
    obtain ⟨first, others⟩ := List.forall_mem_cons.mp known
    refine meets_forEach_cons (D := fun a' v => D a' ∧ W v) (each.at ⟨first, before⟩)
      (fun a' v ⟨kept, after⟩ => ?_) _ rfl
    rintro _ rfl
    obtain ⟨returned, failed⟩ := ih v others after
    refine ⟨fun b p ran => ?_, failed⟩
    obtain ⟨others', after'⟩ := returned b p ran
    exact ⟨List.forall_mem_cons.mpr ⟨kept, others'⟩, after'⟩

end Effect

open Effect

/-- What is said of a state as long as a computation goes on, and what once it has failed. A failure that changes
nothing is included. -/
structure Terms (σ α : Type) where
  holds : σ → Prop
  failed : Error α → σ → Prop
  fails : ∀ e s, holds s → failed e s

/-- A computation that keeps some terms, and returns values of some kind. -/
def Effect.Keeps (T : Terms σ α) (P : β → Prop) (x : Effect σ α β) : Prop :=
  x.Meets T.holds (fun b s => P b ∧ T.holds s) T.failed

namespace Effect

variable {T : Terms σ α} {P : β → Prop} {R : γ → Prop}

theorem keeps_pure {b : β} (kind : P b) : (pure b : Effect σ α β).Keeps T P := meets_pure fun _ holds => ⟨kind, holds⟩

theorem keeps_throw (e : Error α) : (throw e : Effect σ α β).Keeps T P := meets_throw fun s => T.fails e s

theorem keeps_lift {x : Except (Error α) β} (kind : ∀ b, x = .ok b → P b) : (liftM x : Effect σ α β).Keeps T P :=
  meets_lift (fun b _ known holds => ⟨kind b known, holds⟩) fun e s _ => T.fails e s

theorem keeps_bind {x : Effect σ α β} {f : β → Effect σ α γ} (first : x.Keeps T P)
    (rest : ∀ b, P b → (f b).Keeps T R) : (x >>= f).Keeps T R :=
  meets_bind first fun b s known => rest b known.1 s known.2

theorem keeps_get {f : σ → Effect σ α β} (each : ∀ s, T.holds s → (f s).Keeps T P) : (get >>= f).Keeps T P :=
  meets_get each

theorem keeps_modify {f : σ → σ} (holds : ∀ s, T.holds s → T.holds (f s)) :
    (modify f : Effect σ α PUnit).Keeps T fun _ => True :=
  meets_modify fun s before => ⟨trivial, holds s before⟩

theorem keeps_ite {p : Prop} [Decidable p] {x y : Effect σ α β} (first : x.Keeps T P) (second : y.Keeps T P) :
    (if p then x else y).Keeps T P := meets_ite first second

/-- A computation on a part of a larger state keeps the terms that it keeps for every rest of it. -/
theorem keeps_within {U : Terms τ α} {get : τ → σ} {put : σ → τ → τ} {x : Effect σ α β} (V : τ → Terms σ α)
    (inner : ∀ t, U.holds t → x.Keeps (V t) P) (read : ∀ t, U.holds t → (V t).holds (get t))
    (written : ∀ t s, U.holds t → (V t).holds s → U.holds (put s t))
    (failed : ∀ t e s, U.holds t → (V t).failed e s → U.failed e (put s t)) : (within get put x).Keeps U P :=
  meets_within fun t before => ((inner t before).at (read t before)).mono (fun _ => id)
    (fun _ s known => ⟨known.1, written t s before known.2⟩) fun e s => failed t e s before

end Effect

/-- What a run leaves behind at a moment: the state of the caller, the number of evaluations begun, and the pieces
handed over. -/
structure Account (ω α : Type) where
  world : ω
  evaluations : Nat
  pieces : List (Window α × Bool)

/-- The account of a session. -/
def Session.account (s : Session ω α) : Account ω α := ⟨s.tally.world, s.tally.evaluations, s.journal.pieces⟩

namespace Terms

variable (T : Terms (Account ω α) α)

/-- The terms with the state of the caller alone left open. -/
def world (n : Nat) (pieces : List (Window α × Bool)) : Terms ω α :=
  ⟨fun w => T.holds ⟨w, n, pieces⟩, fun e w => T.failed e ⟨w, n, pieces⟩, fun e _ => T.fails e _⟩

/-- The terms on a tally. -/
def tally (pieces : List (Window α × Bool)) : Terms (Tally ω) α :=
  ⟨fun u => T.holds ⟨u.world, u.evaluations, pieces⟩, fun e u => T.failed e ⟨u.world, u.evaluations, pieces⟩,
    fun e _ => T.fails e _⟩

/-- Terms on the state of the caller, next to some data of a kind. -/
def beside (T : Terms ω α) (D : σ → Prop) : Terms (σ × ω) α :=
  ⟨fun p => D p.1 ∧ T.holds p.2, fun e p => T.failed e p.2, fun e p known => T.fails e p.2 known.2⟩

/-- The terms on a session with handlers of one kind and observers of another. -/
def session (H : Handler ω α → Prop) (O : List (Observer ω α) → Prop) : Terms (Session ω α) α where
  holds s := T.holds s.account ∧ (∀ c ∈ s.monitor.channels, H c.handler) ∧ O s.observers
  failed e s := T.failed e s.account
  fails e _ known := T.fails e _ known.1

end Terms

/-- A computation of the caller that does not count as an evaluation. -/
def Effect.Honours (T : Terms (Account ω α) α) (x : Effect ω α β) : Prop :=
  ∀ n pieces, x.Keeps (T.world n pieces) fun _ => True

/-- A computation of the caller that counts as an evaluation, however it ends. -/
def Effect.Counts (T : Terms (Account ω α) α) (x : Effect ω α β) : Prop :=
  ∀ n pieces, x.Meets (T.world n pieces).holds (fun _ => (T.world (n + 1) pieces).holds) (T.world (n + 1) pieces).failed

/-- A right-hand side whose calls count as evaluations. -/
structure Rate.Honours (T : Terms (Account ω α) α) (f : Rate ω α) : Prop where
  eval : ∀ t y, (f.eval t y).Counts T
  onCompile : f.onCompile.Counts T

/-- A handler whose calls do not count as evaluations. -/
structure Handler.Honours (T : Terms (Account ω α) α) (handler : Handler ω α) : Prop where
  init : ∀ t y target, (handler.init t y target).Honours T
  g : ∀ t y, (handler.g t y).Honours T
  eventOccurred : ∀ t y increasing, (handler.eventOccurred t y increasing).Honours T
  resetState : ∀ t y, (handler.resetState t y).Honours T

variable {T : Terms (Account ω α) α}

theorem Effect.closed_honours (T : Terms (Account ω α) α) : Closed fun β (x : Effect ω α β) => x.Honours T :=
  ⟨fun _ _ _ => keeps_lift fun _ _ => trivial, fun first rest n pieces => keeps_bind (first n pieces) fun b _ =>
    rest b n pieces⟩

section

variable {pieces : List (Window α × Bool)} {f : Rate ω α}

theorem Tally.keeps_outside {x : Effect ω α β} (honours : x.Honours T) :
    (outside x).Keeps (T.tally pieces) fun _ => True :=
  keeps_within (fun u => T.world u.evaluations pieces) (fun u _ => honours u.evaluations pieces) (fun _ => id)
    (fun _ _ _ => id) fun _ _ _ _ => id

/-- A call that is counted before it is made. -/
theorem Tally.keeps_counted {x : Effect ω α β} (counts : x.Counts T) :
    (do
      Tally.count
      Tally.outside x).Keeps (T.tally pieces) fun _ => True := by
  intro u under
  have inner : (outside x).Meets (· = { u with evaluations := u.evaluations + 1 })
      (fun _ v => True ∧ (T.tally pieces).holds v) (T.tally pieces).failed := by
    refine meets_within fun _ begun => ?_
    subst begun
    exact ((counts u.evaluations pieces).at under).mono (fun _ => id) (fun _ _ holds => ⟨trivial, holds⟩) fun _ _ => id
  rw [runFrom_bind, count, runFrom_modify]
  exact inner _ rfl

namespace Rate.Honours

theorem keeps_call (honours : f.Honours T) (t : α) (y : State α) : (f.call t y).Keeps (T.tally pieces) fun _ => True :=
  Tally.keeps_counted (honours.eval t y)

theorem keeps_compilingCall (honours : f.Honours T) (t : α) (y : State α) :
    (f.compilingCall t y).Keeps (T.tally pieces) fun _ => True := by
  have counted : (do
      Tally.count
      Tally.outside f.onCompile).Keeps (T.tally pieces) fun _ => True := Tally.keeps_counted honours.onCompile
  have whole := keeps_bind (R := fun _ => True) counted fun _ _ => keeps_lift (x := f.compiled t y) fun _ _ => trivial
  rwa [bind_assoc] at whole

end Rate.Honours

variable [Scalar α]

theorem Scheme.keeps_increment {U : Terms σ α} (scheme : Scheme) {call : α → State α → Effect σ α (State α)}
    (each : ∀ t y, (call t y).Keeps U fun _ => True) (t : α) (y : State α) (h : α) (yp : State α) :
    (scheme.increment call t y h yp).Keeps U fun _ => True := by
  have fits (ys : List (State α)) : (liftM (requireFit ys) : Effect σ α Unit).Keeps U fun _ => True :=
    keeps_lift fun _ _ => trivial
  cases scheme with
  | euler => exact keeps_bind (fits _) fun _ _ => keeps_pure trivial
  | midpoint =>
    refine keeps_bind (fits _) fun _ _ => keeps_bind (each _ _) fun k2 _ => ?_
    exact keeps_bind (fits _) fun _ _ => keeps_pure trivial
  | rk4 =>
    refine keeps_bind (fits _) fun _ _ => keeps_bind (each _ _) fun k2 _ => ?_
    refine keeps_bind (fits _) fun _ _ => keeps_bind (each _ _) fun k3 _ => ?_
    refine keeps_bind (fits _) fun _ _ => keeps_bind (each _ _) fun k4 _ => ?_
    exact keeps_bind (fits _) fun _ _ => keeps_pure trivial
  | abstract => exact keeps_throw _

namespace Stepper

theorem keeps_increment (honours : f.Honours T) (stepper : Stepper) (t : α) (y : State α) (h : α) (yp : State α) :
    (stepper.increment f t y h yp).Keeps (T.tally pieces) fun _ => True := by
  unfold increment
  refine keeps_ite (stepper.scheme.keeps_increment honours.keeps_call t y h yp) (keeps_get fun u _ => keeps_ite ?_ ?_)
  · exact stepper.scheme.keeps_increment (fun _ _ => keeps_lift fun _ _ => trivial) t y h yp
  · refine keeps_bind (stepper.scheme.keeps_increment honours.keeps_compilingCall t y h yp) fun yNext _ => ?_
    exact keeps_bind (keeps_modify fun _ => id) fun _ _ => keeps_pure trivial

theorem keeps_proceed (honours : f.Honours T) (stepper : Stepper) (t : α) (y : State α) (h : α) (yp : State α) :
    (stepper.proceed f t y h yp).Keeps (T.tally pieces) fun _ => True :=
  keeps_bind (stepper.keeps_increment honours t y h yp) fun yNext _ =>
    keeps_bind (honours.keeps_call _ yNext) fun _ _ => keeps_pure trivial

theorem keeps_advance (honours : f.Honours T) (stepper : Stepper) (t : α) (y : State α) (h : α)
    (yp : Option (State α)) : (stepper.advance f t y h yp).Keeps (T.tally pieces) fun _ => True := by
  have checked : (liftM (checkStepSize h) : Effect (Tally ω) α α).Keeps (T.tally pieces) fun _ => True :=
    keeps_lift fun _ _ => trivial
  cases yp with
  | some yp =>
    rw [advance_known]
    exact keeps_bind checked fun size _ => stepper.keeps_proceed honours t y size yp
  | none =>
    rw [advance_unknown]
    refine keeps_bind checked fun size _ => keeps_bind (honours.keeps_call t y) fun yp _ => ?_
    exact stepper.keeps_proceed honours t y size yp

end Stepper

end

namespace Monitor

variable {H : Handler ω α → Prop} {U : Terms ω α}

/-- The terms on a monitor whose handlers are of some kind. -/
abbrev Watched (H : Handler ω α → Prop) (U : Terms ω α) : Terms (Monitor ω α × ω) α :=
  U.beside fun m => ∀ c ∈ m.channels, H c.handler

/-- The terms on a channel whose handler is of some kind. -/
abbrev Handled (H : Handler ω α → Prop) (U : Terms ω α) : Terms (Channel ω α × ω) α := U.beside fun c => H c.handler

theorem keeps_change {f : Monitor ω α → Monitor ω α}
    (keeps : ∀ m : Monitor ω α, (∀ c ∈ m.channels, H c.handler) → ∀ c ∈ (f m).channels, H c.handler) :
    (change f).Keeps (Watched H U) fun _ => True :=
  keeps_modify fun p known => ⟨keeps p.1 known.1, known.2⟩

theorem keeps_changeChannel {f : Channel ω α → Channel ω α} (keeps : ∀ c, (f c).handler = c.handler) :
    (changeChannel f).Keeps (Handled H U) fun _ => True :=
  keeps_modify fun p known => ⟨(congrArg H (keeps p.1)).mpr known.1, known.2⟩

theorem keeps_onSecond {D : σ → Prop} {x : Effect ω α β} {P : β → Prop} (keeps : x.Keeps U P) :
    (onSecond x).Keeps (U.beside D) P :=
  keeps_within (fun _ => U) (fun _ _ => keeps) (fun _ known => known.2) (fun _ _ known after => ⟨known.1, after⟩)
    fun _ _ _ _ => id

/-- What is called of the handler of a channel. -/
theorem keeps_handler {x : Channel ω α → Effect ω α β} {f : β → Effect (Channel ω α × ω) α γ}
    (each : ∀ c : Channel ω α, H c.handler → (x c).Keeps U fun _ => True)
    (rest : ∀ b, (f b).Keeps (Handled H U) fun _ => True) :
    (do
      let (c, _) ← get
      let b ← onSecond (x c)
      f b).Keeps (Handled H U) fun _ => True :=
  keeps_get fun p known => keeps_bind (keeps_onSecond (each p.1 known.1)) fun b _ => rest b

theorem keeps_onChannels {x : Effect (Channel ω α × ω) α Unit} (each : x.Keeps (Handled H U) fun _ => True) :
    (onChannels (forEach x)).Keeps (Watched H U) fun _ => True := by
  refine keeps_within (fun _ => U.beside fun cs : List (Channel ω α) => ∀ c ∈ cs, H c.handler) (fun _ _ => ?_)
    (fun _ => id) (fun _ _ _ => id) fun _ _ _ _ => id
  refine (meets_forEach (D := fun c : Channel ω α => H c.handler) (W := U.holds) (V := U.failed) ?_).mono
    (fun _ => id) (fun _ _ after => ⟨trivial, after⟩) fun _ _ => id
  exact each.mono (fun _ => id) (fun _ _ after => after.2) fun _ _ => id

variable (honours : ∀ handler, H handler → handler.Honours T)

include honours

theorem keeps_moveReference {n : Nat} {pieces : List (Window α × Bool)} (t : α) (y : State α) :
    (moveReference t y).Keeps (Handled H (T.world n pieces)) fun _ => True := by
  refine keeps_bind (keeps_changeChannel ?_) fun _ _ => ?_
  · exact fun _ => rfl
  · exact keeps_handler (fun c kind => (honours _ kind).g t y n pieces) fun g => keeps_changeChannel fun _ => rfl

variable {n : Nat} {pieces : List (Window α × Bool)} [Scalar α]

theorem keeps_opening (t0 : α) (y0 : State α) (target : α) :
    (init t0 y0 target).Keeps (Watched H (T.world n pieces)) fun _ => True := by
  refine keeps_bind (keeps_change ?_) fun _ _ => keeps_bind (keeps_onChannels ?_) fun _ _ => keeps_change ?_
  · exact fun _ => id
  · refine keeps_handler (fun c kind => (honours _ kind).init t0 y0 target n pieces) fun _ => ?_
    refine keeps_bind (keeps_changeChannel ?_) fun _ _ => keeps_moveReference honours t0 y0
    exact fun _ => rfl
  · exact fun _ => id

theorem keeps_commit (t : α) (y : State α) :
    (commit t y).Keeps (Watched H (T.world n pieces)) fun _ => True := by
  refine keeps_onChannels (keeps_bind (keeps_moveReference honours t y) fun _ _ => keeps_changeChannel fun c => ?_)
  split
  · rfl
  · rfl

omit honours [Scalar α] in
theorem keeps_acknowledge (index : Nat) (t : α) :
    (acknowledge index t).Keeps (Watched H U) fun _ => True := by
  refine keeps_get fun ⟨m, w⟩ known => ?_
  cases watched : m.channels[index]? with
  | none =>
    simp only [watched]
    exact keeps_throw _
  | some c =>
    simp only [watched]
    refine keeps_change fun d kinds c' mem => ?_
    rcases List.mem_or_eq_of_mem_set mem with earlier | rfl
    · exact kinds c' earlier
    · exact known.1 c (List.mem_of_getElem? watched)

theorem keeps_scan [Spacing α] (window : Window α) :
    (scan window).Keeps (Watched H (T.world n pieces)) fun _ => True := by
  refine keeps_bind (keeps_change ?_) fun _ _ => keeps_get fun p known => ?_
  · exact fun _ => id
  have search : (candidates p.1.forward window 0 p.1.channels).Honours T :=
    closed_candidates (closed_honours T) p.1.forward window 0 fun c mem => (honours _ (known.1 c mem)).g
  refine keeps_bind (keeps_onSecond (search n pieces)) fun found _ => ?_
  refine keeps_bind (keeps_change ?_) fun _ _ => keeps_pure trivial
  exact fun _ => id

end Monitor

section

variable {H : Handler ω α → Prop} {O : List (Observer ω α) → Prop} {P : β → Prop}

namespace Session

theorem keeps_onTally {x : Effect (Tally ω) α β} (keeps : ∀ pieces, x.Keeps (T.tally pieces) P) :
    (onTally x).Keeps (T.session H O) P :=
  keeps_within (fun s => T.tally s.journal.pieces) (fun _ _ => keeps _) (fun _ known => known.1)
    (fun _ _ known after => ⟨after, known.2⟩) fun _ _ _ _ => id

theorem keeps_outside {x : Effect ω α β} (honours : x.Honours T) :
    (outside x).Keeps (T.session H O) fun _ => True :=
  keeps_onTally fun _ => Tally.keeps_outside honours

theorem keeps_onMonitor {x : Effect (Monitor ω α × ω) α β}
    (keeps : ∀ n pieces, x.Keeps (Monitor.Watched H (T.world n pieces)) P) : (onMonitor x).Keeps (T.session H O) P :=
  keeps_within (fun s => Monitor.Watched H (T.world s.tally.evaluations s.journal.pieces)) (fun _ _ => keeps _ _)
    (fun _ known => ⟨known.2.1, known.1⟩) (fun _ _ known after => ⟨after.2, after.1, known.2.2⟩) fun _ _ _ _ => id

theorem account_note (s : Session ω α) (e : Entry α) :
    ({ s with latestEntries := e :: s.latestEntries } : Session ω α).account =
      { s.account with pieces := s.journal.pieces ++ e.piece?.toList } := by
  cases piece : e.piece? <;> simp [account, journal, Journal.pieces, piece]

theorem keeps_note {e : Entry α} (other : e.piece? = none) :
    (note e : Effect (Session ω α) α Unit).Keeps (T.session H O) fun _ => True := by
  refine keeps_modify fun s known => ⟨?_, known.2⟩
  rw [account_note, other, Option.toList_none, List.append_nil]
  exact known.1

end Session

/-- What observers of some kind make of the start of a run and of every piece: from the terms before the start they lead
to those after it, and they keep these with one piece more. -/
structure Terms.Audience [Scalar α] [Spacing α] (T₀ T : Terms (Account ω α) α) (O : List (Observer ω α) → Prop) (t0 : α)
    (y0 : State α) (target : α) : Prop where
  started : ∀ n pieces, (forEach (Observer.start t0 y0 target)).Meets ((T₀.world n pieces).beside O).holds
    (fun _ => ((T.world n pieces).beside O).holds) ((T.world n pieces).beside O).failed
  heard : ∀ piece last n pieces, (forEach (Observer.accept piece last)).Meets ((T.world n pieces).beside O).holds
    (fun _ => ((T.world n (pieces ++ [(piece, last)])).beside O).holds)
    ((T.world n (pieces ++ [(piece, last)])).beside O).failed

/-- A piece is part of the account, and no observer has heard of it. -/
def Session.Unheard (T : Terms (Account ω α) α) (H : Handler ω α → Prop) (O : List (Observer ω α) → Prop)
    (piece : Window α) (last : Bool) (s : Session ω α) : Prop :=
  ∃ before, s.journal.pieces = before ++ [(piece, last)] ∧ T.holds ⟨s.tally.world, s.tally.evaluations, before⟩ ∧
    (∀ c ∈ s.monitor.channels, H c.handler) ∧ O s.observers

/-- A verdict that leaves the rest of a run to a handler of some kind. -/
def Verdict.Of (H : Handler ω α → Prop) : Verdict ω α → Prop
  | .replace _ handler => H handler
  | _ => True

namespace Course

variable (honours : ∀ handler, H handler → handler.Honours T)

include honours

theorem keeps_consult (t : α) (y : State α) (group : List (Occurrence α)) {verdict : Verdict ω α}
    (kind : verdict.Of H) :
    (consult t y group verdict).Keeps (T.session H O) (Verdict.Of H) := by
  induction group generalizing verdict with
  | nil => exact keeps_pure kind
  | cons o rest ih =>
    refine keeps_get fun s known => ?_
    cases watched : s.monitor.channels[o.index]? with
    | none => exact keeps_throw _
    | some channel =>
      have handler := known.2.1 channel (List.mem_of_getElem? watched)
      refine keeps_bind (Session.keeps_note rfl) fun _ _ => ?_
      refine keeps_bind (Session.keeps_outside ((honours _ handler).eventOccurred t y o.increasing)) fun action _ => ?_
      refine keeps_bind (Session.keeps_note rfl) fun _ _ => ?_
      refine keeps_bind (Session.keeps_onMonitor fun n pieces => Monitor.keeps_acknowledge _ _) fun _ _ => ?_
      cases action with
      | stop => exact keeps_pure trivial
      | resetState => exact keeps_pure handler
      | resetDerivatives => exact ih trivial
      | carryOn => exact ih kind

variable [Scalar α] {course : Course ω α}

theorem keeps_commit (t : α) (y : State α) :
    (Session.onMonitor (Monitor.commit t y)).Keeps (T.session H O) fun _ => True :=
  Session.keeps_onMonitor fun _ _ => Monitor.keeps_commit honours t y

theorem keeps_restart (t : α) (y : State α) (atEnd : Bool) :
    (restart t y atEnd).Keeps (T.session H O) fun _ => True := by
  refine keeps_bind (keeps_commit honours t y) fun _ _ => ?_
  cases atEnd
  · exact keeps_pure trivial
  · exact keeps_pure trivial

omit honours in
theorem keeps_nextLeg (rate : course.equation.toRate.Honours T) (t : α) (y : State α) (yp : Option (State α)) :
    (course.nextLeg t y yp).Keeps (T.session H O) fun _ => True :=
  keeps_bind (Session.keeps_onTally fun _ => course.stepper.keeps_advance rate t y _ yp) fun _ _ => keeps_pure trivial

/-- Up to what the observers make of the start, a run keeps the terms before it. -/
theorem meets_begin [Spacing α] {T' : Terms (Account ω α) α} (rate : course.equation.toRate.Honours T) {t0 : α}
    {y0 : State α} (audience : T.Audience T' O t0 y0 course.target) (milder : ∀ e a, T.failed e a → T'.failed e a) :
    (course.begin t0 y0).Meets (T.session H O).holds (fun _ => (T'.session H O).holds) (T'.session H O).failed := by
  have called : (Session.onTally (course.equation.call t0 y0)).Keeps (T.session H O) fun _ => True :=
    Session.keeps_onTally fun _ => rate.keeps_call t0 y0
  have sized (yp : State α) : (liftM (course.equation.requireSize .derivative yp) : Effect (Session ω α) α Unit).Keeps
      (T.session H O) fun _ => True := keeps_lift fun _ _ => trivial
  have watched : (Session.onMonitor (Monitor.init t0 y0 course.target)).Keeps (T.session H O) fun _ => True :=
    Session.keeps_onMonitor fun _ _ => Monitor.keeps_opening honours t0 y0 course.target
  have later {β : Type} {x : Effect (Session ω α) α β} (keeps : x.Keeps (T.session H O) fun _ => True) :
      x.Meets (T.session H O).holds (fun _ => (T.session H O).holds) (T'.session H O).failed :=
    keeps.mono (fun _ => id) (fun _ _ known => known.2) fun e _ => milder e _
  refine meets_bind (later called) fun yp => meets_bind (later (sized yp)) fun _ => ?_
  refine meets_bind (later watched) fun _ => ?_
  refine meets_bind (J := fun _ => (T'.session H O).holds) (meets_within fun s known => ?_) fun _ => ?_
  · exact ((audience.started s.tally.evaluations s.journal.pieces).at (s := (s.observers, s.tally.world))
      ⟨known.2.2, known.1⟩).mono (fun _ => id) (fun _ _ after => ⟨after.2, known.2.1, after.1⟩) fun _ _ => id
  · exact meets_pure fun _ => id

variable [Spacing α]

theorem keeps_scan (window : Window α) : (scan window).Keeps (T.session H O) fun _ => True :=
  keeps_get fun _ _ => keeps_ite (keeps_pure trivial)
    (Session.keeps_onMonitor fun _ _ => Monitor.keeps_scan honours window)

omit [Spacing α] in
theorem keeps_settling (leg : Leg α) (window : Window α) :
    (settling leg window).rest.Keeps (T.session H O) fun _ => True :=
  keeps_bind (keeps_commit honours _ _) fun _ _ => keeps_ite (keeps_pure trivial) (keeps_pure trivial)

theorem keeps_resume (course : Course ω α) (leg : Leg α) (window : Window α) (t : α) (y : State α) (atEnd : Bool)
    {verdict : Verdict ω α} (kind : verdict.Of H) :
    (course.resume leg window t y atEnd verdict).Keeps (T.session H O) fun _ => True := by
  cases verdict with
  | stop => exact keeps_bind (Session.keeps_note rfl) fun _ _ => keeps_pure trivial
  | replace index handler =>
    refine keeps_bind (Session.keeps_outside ((honours handler kind).resetState t y)) fun y _ => ?_
    refine keeps_bind (keeps_lift (P := fun _ => True) fun _ _ => trivial) fun _ _ => ?_
    exact keeps_bind (Session.keeps_note rfl) fun _ _ => keeps_restart honours t y atEnd
  | restart => exact keeps_restart honours t y atEnd
  | carryOn =>
    refine keeps_bind (keeps_commit honours t y) fun _ _ => ?_
    apply keeps_ite
    · exact keeps_ite (keeps_pure trivial) (keeps_pure trivial)
    · exact keeps_bind (keeps_lift (P := fun _ => True) fun _ _ => trivial) fun _ _ => keeps_pure trivial

/-- A pass makes its way to a handover behind which the terms are kept. -/
theorem keeps_survey (course : Course ω α) (leg : Leg α) (window : Window α) :
    (course.survey leg window).Keeps (T.session H O) fun h => h.rest.Keeps (T.session H O) fun _ => True := by
  refine keeps_bind (keeps_scan honours window) fun group _ => ?_
  cases group with
  | nil => exact keeps_pure (keeps_settling honours leg window)
  | cons first rest =>
    refine keeps_bind (Session.keeps_note rfl) fun _ _ => ?_
    refine keeps_bind (keeps_lift (P := fun _ => True) fun _ _ => trivial) fun piece _ => ?_
    refine keeps_bind (keeps_consult honours first.t piece.yStop (first :: rest) trivial) fun verdict kind => ?_
    exact keeps_pure (keeps_resume honours course leg window first.t piece.yStop _ kind)

theorem keeps_approach (rate : course.equation.toRate.Honours T) (phase : Phase α) :
    (course.approach phase).Keeps (T.session H O) fun h => h.rest.Keeps (T.session H O) fun _ => True := by
  cases phase with
  | scanning leg window => exact course.keeps_survey honours leg window
  | stepping t y yp => exact keeps_bind (keeps_nextLeg rate t y yp) fun leg _ => course.keeps_survey honours leg _

omit honours in
/-- The observers hear of a piece once it is part of the account. -/
theorem keeps_deliver {T₀ : Terms (Account ω α) α} {t0 target : α} {y0 : State α}
    (audience : T₀.Audience T O t0 y0 target) (piece : Window α) (last : Bool) :
    (Session.deliver piece last).Keeps (T.session H O) fun _ => True := by
  refine meets_bind (J := fun _ => (T.session H O).holds) (meets_modify fun _ => id) fun _ => ?_
  refine meets_bind (J := fun _ => Session.Unheard T H O piece last) (meets_modify fun s known => ?_) fun _ => ?_
  · exact ⟨_, congrArg Account.pieces (Session.account_note s _), known⟩
  refine meets_within fun s ⟨before, noted, holds, handlers, observers⟩ => ?_
  refine ((audience.heard piece last s.tally.evaluations before).at (s := (s.observers, s.tally.world))
    ⟨observers, holds⟩).mono (fun _ => id) (fun _ p after => ⟨trivial, ?_, handlers, after.1⟩) fun e p after => ?_
  · rw [← noted] at after
    exact after.2
  · rw [← noted] at after
    exact after

omit honours in
/-- A piece is handed over to an audience that keeps the terms. -/
theorem keeps_handOver {T₀ : Terms (Account ω α) α} {t0 target : α} {y0 : State α}
    (audience : T₀.Audience T O t0 y0 target) {h : Handover ω α}
    (rest : h.rest.Keeps (T.session H O) fun _ => True) : (course.handOver h).Keeps (T.session H O) fun _ => True := by
  intro s known
  rw [runFrom_handOver]
  split
  · exact keeps_throw (P := fun _ => True) _ s known
  · exact keeps_bind (keeps_deliver audience h.piece h.last) (fun _ _ => rest) s known

/-- With an audience that keeps them, the terms are kept in all passes. -/
theorem keeps_passes {T₀ : Terms (Account ω α) α} (rate : course.equation.toRate.Honours T) {t0 target : α}
    {y0 : State α} (audience : T₀.Audience T O t0 y0 target) (left : Nat) (phase : Phase α) :
    (course.passes left phase).Keeps (T.session H O) fun _ => True := by
  induction left generalizing phase with
  | zero => exact keeps_throw _
  | succ left ih =>
    rw [passes, pass_eq, bind_assoc]
    refine keeps_bind (keeps_approach honours rate phase) fun h rest => ?_
    refine keeps_bind (keeps_handOver audience rest) fun progress _ => ?_
    cases progress with
    | finished t y => exact keeps_pure trivial
    | onward next => exact ih next

/-- However a run ends, the terms are kept: those before the start of the run, up to what the observers make of it, and
from then on those after it. -/
theorem meets_run {T₀ : Terms (Account ω α) α} (rate₀ : course.equation.toRate.Honours T₀)
    (honours₀ : ∀ handler, H handler → handler.Honours T₀) (milder : ∀ e a, T₀.failed e a → T.failed e a)
    (rate : course.equation.toRate.Honours T) {t0 : α} {y0 : State α}
    (audience : T₀.Audience T O t0 y0 course.target) :
    (course.run t0 y0).Meets (T₀.session H O).holds (fun _ => (T.session H O).holds) (T.session H O).failed := by
  rw [run_eq]
  refine meets_bind (meets_begin honours₀ rate₀ audience milder) fun yp => ?_
  exact (keeps_passes honours rate audience _ _).mono (fun _ => id) (fun _ _ known => known.2) fun _ _ => id

end Course

end

end Trajectory
