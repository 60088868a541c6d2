import Mathlib.Tactic
import Trajectory.Proofs.Follows
import Trajectory.Proofs.Hearing
import Trajectory.Proofs.Isolation
import Trajectory.Proofs.Purity

/-!
Parts of a run that come to an end.

A loop whose bound is used up stalls, and this stands for a loop that does not end. `Effect.Halts` says that
a computation does not stall from the states of some kind, and that the states in which it succeeds are of
another kind; computations that are put together from such ones halt as well. Outcomes that are known
beforehand are never stalls (`Prompt`). So only the bounds of the loops matter: the search between two
samples has room for all roots that it can skip (`Monitor.halts_scan`), and a normalizer for all points of its
grid in a piece (`Observer.halts_accept`).
-/

namespace Trajectory

variable {σ τ ω α β γ : Type}

namespace Effect

/-- From every state of some kind a computation comes to an end, and what it returns and the state in which it does so
are of another kind. -/
def Halts (I : σ → Prop) (J : β → σ → Prop) (x : Effect σ α β) : Prop :=
  ∀ s, I s → (x.runFrom s).1 ≠ .error .stalled ∧ ∀ b, (x.runFrom s).1 = .ok b → J b (x.runFrom s).2

/-- A computation that comes to an end from every state of some kind, and returns in a state of that kind. -/
abbrev HaltsIn (I : σ → Prop) (x : Effect σ α β) : Prop := x.Halts I fun _ => I

/-- A computation that comes to an end from every state. -/
abbrev Terminates (x : Effect σ α β) : Prop := x.HaltsIn fun _ => True

variable {I : σ → Prop} {J : β → σ → Prop} {K : γ → σ → Prop}

theorem halts_pure {b : β} (holds : ∀ s, I s → J b s) : (pure b : Effect σ α β).Halts I J := by
  refine fun _ before => ⟨nofun, fun _ returned => ?_⟩
  cases returned
  exact holds _ before

theorem halts_throw {e : Error α} (other : e ≠ .stalled) : (throw e : Effect σ α β).Halts I J :=
  fun _ _ => ⟨fun stalled => other (Except.error.inj stalled), nofun⟩

theorem halts_lift {x : Except (Error α) β} (other : x ≠ .error .stalled) (holds : ∀ b s, I s → J b s) :
    (liftM x : Effect σ α β).Halts I J := by
  intro s before
  rw [runFrom_lift]
  exact ⟨other, fun b _ => holds b s before⟩

theorem halts_bind {x : Effect σ α β} {f : β → Effect σ α γ} (first : x.Halts I J) (rest : ∀ b, (f b).Halts (J b) K) :
    (x >>= f).Halts I K := by
  intro s before
  obtain ⟨other, holds⟩ := first s before
  rw [runFrom_bind]
  rcases ran : x.runFrom s with ⟨e | b, s'⟩
  · rw [ran] at other
    exact ⟨fun stalled => other (by rw [Except.error.inj stalled]), nofun⟩
  · rw [ran] at holds
    exact rest b s' (holds b rfl)

/-- What is read of a state may be used. -/
theorem halts_get {f : σ → Effect σ α β} (each : ∀ s, I s → (f s).Halts I J) : (get >>= f).Halts I J := by
  intro s before
  rw [runFrom_bind, runFrom_get]
  exact each s before s before

theorem haltsIn_modify {f : σ → σ} (keeps : ∀ s, I s → I (f s)) : (modify f : Effect σ α PUnit).HaltsIn I :=
  fun s before => ⟨nofun, fun _ _ => keeps s before⟩

theorem halts_ite {p : Prop} [Decidable p] {x y : Effect σ α β} (first : x.Halts I J) (second : y.Halts I J) :
    (if p then x else y).Halts I J := by
  split
  · exact first
  · exact second

theorem halts_within {I' : τ → Prop} {J' : β → τ → Prop} {get : τ → σ} {put : σ → τ → τ} {x : Effect σ α β}
    (inner : x.Halts I J) (read : ∀ t, I' t → I (get t)) (written : ∀ b s t, I' t → J b s → J' b (put s t)) :
    (within get put x).Halts I' J' := by
  intro t before
  obtain ⟨other, holds⟩ := inner (get t) (read t before)
  rw [runFrom_within]
  exact ⟨other, fun b returned => written b _ t before (holds b returned)⟩

theorem haltsIn_onSecond {A : σ → Prop} {x : Effect ω α β} (terminates : x.Terminates) :
    (onSecond x).HaltsIn fun p : σ × ω => A p.1 :=
  halts_within terminates (fun _ _ => trivial) fun _ _ _ before _ => before

theorem halts_forEach {A B : σ → Prop} {x : Effect (σ × ω) α Unit} (each : x.Halts (fun p => A p.1) fun _ p => B p.1) :
    (forEach x).Halts (fun p => ∀ a ∈ p.1, A a) fun _ p => ∀ a ∈ p.1, B a := by
  rintro ⟨l, w⟩ before
  induction l generalizing w with
  | nil => exact ⟨nofun, fun _ _ _ mem => absurd mem List.not_mem_nil⟩
  | cons a rest ih =>
    obtain ⟨other, holds⟩ := each (a, w) (before a List.mem_cons_self)
    rw [runFrom_forEach_cons]
    rcases ran : x.runFrom (a, w) with ⟨e | ⟨⟩, a', w'⟩
    · rw [ran] at other
      exact ⟨fun stalled => other stalled, nofun⟩
    · rw [ran] at holds
      obtain ⟨others, later⟩ := ih w' fun b mem => before b (List.mem_cons_of_mem a mem)
      refine ⟨others, fun b returned c mem => ?_⟩
      rcases List.mem_cons.mp mem with rfl | mem
      · exact holds () rfl
      · exact later b returned c mem

/-- What fails in other ways only comes to an end. -/
theorem Ends.terminates {x : Effect σ α β} (ends : x.Ends (fun _ => True) (· ≠ .stalled)) : x.Terminates := by
  refine fun s _ => ⟨fun stalled => ?_, fun _ _ => trivial⟩
  exact (ends s).2 .stalled _ (Prod.ext stalled rfl) rfl

theorem Halts.ends {x : Effect σ α β} (terminates : x.Terminates) : x.Ends (fun _ => True) (· ≠ .stalled) := by
  refine fun s => ⟨fun _ _ _ => trivial, fun e s' ran => ?_⟩
  rintro rfl
  exact (terminates s trivial).1 (congrArg Prod.fst ran)

end Effect

/-- A known outcome that is not a stall. -/
def Prompt (x : Except (Error α) β) : Prop := x ≠ .error .stalled

theorem prompt_ok (b : β) : Prompt (.ok b : Except (Error α) β) := nofun

theorem prompt_bind {x : Except (Error α) β} {f : β → Except (Error α) γ} (first : Prompt x) (rest : ∀ b, Prompt (f b)) :
    Prompt (x >>= f) := by
  cases x with
  | error e => exact fun stalled => first (by rw [Except.error.inj stalled])
  | ok b => exact rest b

theorem prompt_ite {p : Prop} [Decidable p] {x y : Except (Error α) β} (first : Prompt x) (second : Prompt y) :
    Prompt (if p then x else y) := by
  split
  · exact first
  · exact second

theorem Shape.prompt_joined (s t : Shape) : Prompt (Shape.joined s t : Except (Error α) Shape) := by
  unfold joined
  split
  · exact prompt_ok _
  · split
    · exact nofun
    · exact nofun

theorem prompt_jointShape (ys : List (State α)) : Prompt (jointShape ys) := by
  unfold jointShape
  generalize ([] : Shape) = s
  induction ys generalizing s with
  | nil => exact prompt_ok s
  | cons y ys ih =>
    rw [List.foldlM_cons]
    exact prompt_bind (Shape.prompt_joined s y.shape) ih

theorem prompt_requireFit (ys : List (State α)) : Prompt (requireFit ys) :=
  prompt_bind (prompt_jointShape ys) fun _ => prompt_ok _

theorem Equation.prompt_requireSize (equation : Equation ω α) (what : Quantity) (y : State α) :
    Prompt (equation.requireSize what y) := by
  unfold requireSize
  exact prompt_ite (prompt_ok _) nofun

section

variable [Scalar α]

theorem prompt_checkStepSize (h : α) : Prompt (checkStepSize h) := by
  unfold checkStepSize
  exact prompt_ite nofun (prompt_ok h)

theorem prompt_quotient (x y : α) : Prompt (quotient x y) := by
  unfold quotient
  exact prompt_ite nofun (prompt_ok _)

variable [Spacing α]

namespace Window

theorem prompt_check (w : Window α) (t : α) : Prompt (w.check t) := by
  unfold check
  exact prompt_ite (prompt_ok _) nofun

theorem prompt_stateAt (w : Window α) (t : α) : Prompt (w.stateAt t) := by
  refine prompt_bind (w.prompt_check t) fun _ => prompt_ite (prompt_ok _) (prompt_ite (prompt_ok _) ?_)
  refine prompt_bind (prompt_quotient _ _) fun θ => prompt_bind ?_ fun _ => prompt_ok _
  refine prompt_bind (prompt_jointShape _) fun states => prompt_bind (prompt_jointShape _) fun rates => ?_
  exact prompt_bind (Shape.prompt_joined states rates) fun _ => prompt_ok _

theorem prompt_restrict (w : Window α) (start stop : α) : Prompt (w.restrict start stop) := by
  refine prompt_bind (w.prompt_check start) fun _ => prompt_bind (w.prompt_check stop) fun _ => ?_
  refine prompt_ite nofun (prompt_bind (w.prompt_stateAt start) fun _ => ?_)
  exact prompt_bind (w.prompt_stateAt stop) fun _ => prompt_ok _

end Window

end

open Effect

/-- A right-hand side whose calls come to an end. -/
structure Rate.Terminates (f : Rate ω α) : Prop where
  eval : ∀ t y, (f.eval t y).Terminates
  onCompile : f.onCompile.Terminates
  compiled : ∀ t y, Prompt (f.compiled t y)

/-- A handler whose calls come to an end. -/
structure Handler.Terminates (handler : Handler ω α) : Prop where
  init : ∀ t y target, (handler.init t y target).Terminates
  g : ∀ t y, (handler.g t y).Terminates
  eventOccurred : ∀ t y increasing, (handler.eventOccurred t y increasing).Terminates
  resetState : ∀ t y, (handler.resetState t y).Terminates

section

variable {f : Rate ω α}

theorem Tally.terminates_outside {x : Effect ω α β} (terminates : x.Terminates) : (outside x).Terminates :=
  halts_within terminates (fun _ _ => trivial) fun _ _ _ _ _ => trivial

theorem Tally.terminates_count : (count : Effect (Tally ω) α Unit).Terminates := haltsIn_modify fun _ _ => trivial

theorem Rate.Terminates.call (terminates : f.Terminates) (t : α) (y : State α) : (f.call t y).Terminates :=
  halts_bind Tally.terminates_count fun _ => Tally.terminates_outside (terminates.eval t y)

theorem Rate.Terminates.compiledCall (terminates : f.Terminates) (t : α) (y : State α) :
    (f.compiledCall t y).Terminates :=
  halts_lift (terminates.compiled t y) fun _ _ _ => trivial

theorem Rate.Terminates.compilingCall (terminates : f.Terminates) (t : α) (y : State α) :
    (f.compilingCall t y).Terminates := by
  refine halts_bind Tally.terminates_count fun _ => ?_
  exact halts_bind (Tally.terminates_outside terminates.onCompile) fun _ => terminates.compiledCall t y

variable [Scalar α]

theorem Scheme.terminates_increment (scheme : Scheme) {call : α → State α → Effect σ α (State α)}
    (terminates : ∀ t y, (call t y).Terminates) (t : α) (y : State α) (h : α) (yp : State α) :
    (scheme.increment call t y h yp).Terminates := by
  have fits : ∀ ys : List (State α), (liftM (requireFit ys) : Effect σ α Unit).Terminates :=
    fun ys => halts_lift (prompt_requireFit ys) fun _ _ _ => trivial
  cases scheme with
  | euler => exact halts_bind (fits _) fun _ => halts_pure fun _ _ => trivial
  | midpoint =>
    refine halts_bind (fits _) fun _ => halts_bind (terminates _ _) fun k2 => ?_
    exact halts_bind (fits _) fun _ => halts_pure fun _ _ => trivial
  | rk4 =>
    refine halts_bind (fits _) fun _ => halts_bind (terminates _ _) fun k2 => ?_
    refine halts_bind (fits _) fun _ => halts_bind (terminates _ _) fun k3 => ?_
    refine halts_bind (fits _) fun _ => halts_bind (terminates _ _) fun k4 => ?_
    exact halts_bind (fits _) fun _ => halts_pure fun _ _ => trivial
  | abstract => exact halts_throw nofun

theorem Stepper.terminates_increment (terminates : f.Terminates) (stepper : Stepper) (t : α) (y : State α) (h : α)
    (yp : State α) : (stepper.increment f t y h yp).Terminates := by
  unfold increment
  refine halts_ite (stepper.scheme.terminates_increment terminates.call t y h yp) (halts_get fun u _ => ?_)
  refine halts_ite (stepper.scheme.terminates_increment terminates.compiledCall t y h yp) ?_
  refine halts_bind (stepper.scheme.terminates_increment terminates.compilingCall t y h yp) fun yNext => ?_
  exact halts_bind (haltsIn_modify fun _ _ => trivial) fun _ => halts_pure fun _ _ => trivial

theorem Stepper.terminates_proceed (terminates : f.Terminates) (stepper : Stepper) (t : α) (y : State α) (h : α)
    (yp : State α) : (stepper.proceed f t y h yp).Terminates := by
  refine halts_bind (terminates_increment terminates stepper t y h yp) fun yNext => ?_
  exact halts_bind (terminates.call _ yNext) fun ypNext => halts_pure fun _ _ => trivial

theorem Stepper.terminates_advance (terminates : f.Terminates) (stepper : Stepper) (t : α) (y : State α) (h : α)
    (yp : Option (State α)) : (stepper.advance f t y h yp).Terminates := by
  have checked : (liftM (checkStepSize h) : Effect (Tally ω) α α).Terminates :=
    halts_lift (prompt_checkStepSize h) fun _ _ _ => trivial
  cases yp with
  | some yp =>
    rw [advance_known]
    exact halts_bind checked fun h => terminates_proceed terminates stepper t y h yp
  | none =>
    rw [advance_unknown]
    exact halts_bind checked fun h => halts_bind (terminates.call t y) fun yp =>
      terminates_proceed terminates stepper t y h yp

end

/-- A channel with valid settings, whose handler comes to an end whenever it is called. -/
structure Channel.Sound (c : Channel ω Rat) : Prop where
  valid : c.settings.valid = true
  handler : c.handler.Terminates

namespace Monitor

/-- A monitor all of whose channels are sound. -/
def Sound (p : Monitor ω Rat × ω) : Prop := ∀ c ∈ p.1.channels, c.Sound

theorem halts_change {f : Monitor ω Rat → Monitor ω Rat} (keeps : ∀ m, (f m).channels = m.channels) :
    (change f : Effect (Monitor ω Rat × ω) Rat Unit).HaltsIn Sound :=
  haltsIn_modify fun p sound c mem => sound c (keeps p.1 ▸ mem)

theorem halts_onChannels {x : Effect (Channel ω Rat × ω) Rat Unit}
    (each : x.HaltsIn fun p => p.1.Sound) : (onChannels (forEach x)).HaltsIn Sound :=
  halts_within (halts_forEach each) (fun _ before => before) fun _ _ _ _ after => after

theorem halts_changeChannel {f : Channel ω Rat → Channel ω Rat} (keeps : ∀ c : Channel ω Rat, c.Sound → (f c).Sound) :
    (changeChannel f : Effect (Channel ω Rat × ω) Rat Unit).HaltsIn fun p => p.1.Sound :=
  haltsIn_modify fun p sound => keeps p.1 sound

theorem halts_moveReference (t : Rat) (y : State Rat) :
    (moveReference t y : Effect (Channel ω Rat × ω) Rat Unit).HaltsIn fun p => p.1.Sound := by
  refine halts_bind (halts_changeChannel fun _ sound => ⟨sound.valid, sound.handler⟩) fun _ => ?_
  refine halts_get fun p sound => halts_bind (haltsIn_onSecond (sound.handler.g t y)) fun g => ?_
  exact halts_changeChannel fun _ sound => ⟨sound.valid, sound.handler⟩

theorem halts_init (t0 : Rat) (y0 : State Rat) (target : Rat) :
    (init t0 y0 target : Effect (Monitor ω Rat × ω) Rat Unit).HaltsIn Sound := by
  refine halts_bind (halts_change fun _ => rfl) fun _ => ?_
  refine halts_bind (halts_onChannels (halts_get fun p sound => ?_)) fun _ => halts_change fun _ => rfl
  refine halts_bind (haltsIn_onSecond (sound.handler.init t0 y0 target)) fun _ => ?_
  refine halts_bind (halts_changeChannel fun _ sound => ⟨sound.valid, sound.handler⟩) fun _ => ?_
  exact halts_moveReference t0 y0

theorem halts_commit (t : Rat) (y : State Rat) :
    (commit t y : Effect (Monitor ω Rat × ω) Rat Unit).HaltsIn Sound := by
  refine halts_onChannels (halts_bind (halts_moveReference t y) fun _ => halts_changeChannel fun c sound => ?_)
  split
  · exact ⟨sound.valid, sound.handler⟩
  · exact sound

theorem halts_acknowledge (index : Nat) (t : Rat) :
    (acknowledge index t : Effect (Monitor ω Rat × ω) Rat Unit).HaltsIn Sound := by
  refine halts_get fun ⟨d, w⟩ sound => ?_
  cases watched : d.channels[index]? with
  | none =>
    simp only [watched]
    exact halts_throw nofun
  | some c =>
    simp only [watched]
    refine haltsIn_modify fun p sound' c' mem => ?_
    have known := sound c (List.mem_of_getElem? watched)
    rcases List.mem_or_eq_of_mem_set mem with earlier | rfl
    · exact sound' c' earlier
    · exact ⟨known.valid, known.handler⟩

end Monitor

variable [Spacing Rat]

/-- The search of a channel comes to an end, however often it skips a root and looks at the same sample again. -/
theorem Channel.Sound.terminates_firstRoot {c : Channel ω Rat} (sound : c.Sound) (forward : Bool) (window : Window Rat) :
    (c.firstRoot forward window).Terminates := by
  refine (firstRoot_ends (fun e isolation => ?_) sound.valid fun t _ _ => ?_).terminates
  · rintro rfl
    exact isolation
  · have called : (c.along window t).Terminates :=
      halts_bind (halts_lift (window.prompt_stateAt t) fun _ _ _ => trivial) fun y => sound.handler.g t y
    exact called.ends

namespace Monitor

theorem terminates_candidates (forward : Bool) (window : Window Rat) {base : Nat} {channels : List (Channel ω Rat)}
    (sound : ∀ c ∈ channels, c.Sound) : (candidates forward window base channels).Terminates :=
  (candidates_ends fun c mem => ((sound c mem).terminates_firstRoot forward window).ends).terminates

/-- A scan of sound channels comes to an end. -/
theorem halts_scan (window : Window Rat) :
    (scan window : Effect (Monitor ω Rat × ω) Rat (List (Occurrence Rat))).HaltsIn Sound := by
  refine halts_bind (halts_change fun _ => rfl) fun _ => halts_get fun p sound => ?_
  refine halts_bind (haltsIn_onSecond (A := fun m : Monitor ω Rat => ∀ c ∈ m.channels, c.Sound)
    (terminates_candidates _ window sound)) fun found => ?_
  exact halts_bind (halts_change fun _ => rfl) fun _ => halts_pure fun _ => id

end Monitor

/-- An observer that comes to an end whenever it hears of something, from the start of a run on: its callbacks and the
domain of its reference solution do, and a normalizer has a spacing. -/
def Observer.Terminates : Observer ω Rat → Prop
  | .recorder _ => True
  | .sampler _ => True
  | .normalizer n => 0 < n.spacing ∧ ∀ t y last, (n.callback t y last).Terminates
  | .tracker k => ∀ t, Prompt (k.problem.solutionDomain t)
  | .custom onStart onPiece => (∀ t y target, (onStart t y target).Terminates) ∧
      ∀ piece last, (onPiece piece last).Terminates

/-- An observer that has heard of the start of a run, and comes to an end whenever it hears of a piece. -/
def Observer.Served : Observer ω Rat → Prop
  | .normalizer n => (∃ forward, n.Spaced forward) ∧ ∀ t y last, (n.callback t y last).Terminates
  | o => o.Terminates

omit [Spacing Rat] in
theorem Observer.halts_start (t0 : Rat) (y0 : State Rat) (target : Rat) :
    (Observer.start t0 y0 target : Effect (Observer ω Rat × ω) Rat Unit).Halts (fun p => p.1.Terminates)
      fun _ p => p.1.Served := by
  rintro ⟨o, w⟩ terminates
  cases o with
  | recorder r => exact ⟨nofun, fun _ _ => trivial⟩
  | sampler s => exact ⟨nofun, fun _ _ => trivial⟩
  | normalizer n =>
    obtain ⟨spaced, callback⟩ := terminates
    rw [Observer.runFrom_start_normalizer, Normalizer.runFrom_start]
    exact ⟨(callback t0 y0 false w trivial).1, fun _ _ => ⟨⟨_, Normalizer.spaced_begun spaced⟩, callback⟩⟩
  | tracker k => exact ⟨nofun, fun _ _ => terminates⟩
  | custom onStart onPiece =>
    rw [Observer.runFrom_start_custom]
    exact ⟨(terminates.1 t0 y0 target w trivial).1, fun _ _ => terminates⟩

theorem Sampler.prompt_take (forward : Bool) (piece : Window Rat) (ts : List Rat) (rows : List (Rat × State Rat)) :
    Prompt (take forward piece ts rows).1 := by
  induction ts generalizing rows with
  | nil => exact prompt_ok ()
  | cons t rest ih =>
    rw [take]
    split
    · cases answered : piece.stateAt t with
      | error e => exact fun stalled => piece.prompt_stateAt t (answered.trans (congrArg _ (Except.error.inj stalled)))
      | ok y => exact ih _
    · exact prompt_ok ()

namespace Normalizer

variable {forward : Bool} {n : Normalizer ω Rat} {w : ω}

/-- With room for the points of its grid a normalizer comes to the end of a piece. -/
theorem report_halts (piece : Window Rat) (last : Bool) {rounds : Nat} (grid : n.Spaced forward)
    (callback : ∀ t y last, (n.callback t y last).Terminates)
    (room : ∀ k, (k ≠ 0 → NotAfter forward (n.gridPoint (n.count + k)) piece.stop) → k < rounds) :
    ((report piece last rounds).runFrom (n, w)).1 ≠ .error .stalled ∧
      ∃ k, ((report piece last rounds).runFrom (n, w)).2.1 = n.moved k := by
  induction rounds generalizing n w with
  | zero => exact absurd (room 0 fun moved => absurd rfl moved) (Nat.lt_irrefl 0)
  | succ rounds ih =>
    by_cases beyond : n.beyond n.next piece.stop = true
    · rw [report_beyond beyond]
      exact ⟨nofun, 0, rfl⟩
    · have reached : NotAfter forward n.next piece.stop := not_precedes.mp (grid.beyond_iff.not.mp beyond)
      rw [report_round beyond, Effect.runFrom_bind, Effect.runFrom_lift]
      cases answered : piece.stateAt n.next with
      | error e =>
        refine ⟨fun stalled => piece.prompt_stateAt n.next ?_, 1, rfl⟩
        rw [answered, Except.error.inj stalled]
      | ok y =>
        dsimp only
        rw [Effect.runFrom_bind, Effect.runFrom_onSecond]
        have called := (callback n.next y (last && n.next == piece.stop) w trivial).1
        rcases ran : (n.callback n.next y (last && n.next == piece.stop)).runFrom w with ⟨e | ⟨⟩, v⟩
        · rw [ran] at called
          exact ⟨fun stalled => called (by rw [Except.error.inj stalled]), 1, rfl⟩
        · obtain ⟨other, k, moved⟩ := ih (grid.moved 1) callback fun k inside => by
            refine Nat.lt_of_succ_lt_succ (room (k + 1) fun _ => ?_)
            by_cases first : k = 0
            · rw [first]
              exact reached
            · have place : n.count + 1 + k = n.count + (k + 1) := by omega
              rw [← place]
              exact inside first
          exact ⟨other, 1 + k, by rw [← moved_moved]; exact moved⟩

/-- A normalizer comes to an end when it hears of a piece, and leads along its grid as before. -/
theorem accept_halts (gaps : ∀ x : Rat, 0 ≤ Spacing.ulp x) (piece : Window Rat) (last : Bool) (grid : n.Spaced forward)
    (callback : ∀ t y last, (n.callback t y last).Terminates) :
    ((accept piece last).runFrom (n, w)).1 ≠ .error .stalled ∧
      ((accept piece last).runFrom (n, w)).2.1.Spaced forward ∧
      ((accept piece last).runFrom (n, w)).2.1.callback = n.callback := by
  obtain ⟨other, k, moved⟩ := report_halts (w := w) piece last grid callback fun k => grid.lt_rounds gaps piece
  rw [runFrom_accept, Effect.runFrom_bind]
  rcases ran : (report piece last (n.rounds piece)).runFrom (n, w) with ⟨e | ⟨⟩, m, v⟩
  · rw [ran] at other moved
    obtain rfl : m = n.moved k := moved
    exact ⟨fun stalled => other (by rw [Except.error.inj stalled]), grid.moved k, rfl⟩
  · rw [ran] at moved
    obtain rfl : m = n.moved k := moved
    dsimp only
    rw [runFrom_reportEnd]
    split
    · exact ⟨(callback piece.stop piece.yStop true v trivial).1, ⟨grid.spaced, grid.along⟩, rfl⟩
    · exact ⟨nofun, grid.moved k, rfl⟩

end Normalizer

omit [Spacing Rat] in
theorem Tracker.prompt_deviation {k : Tracker ω Rat} (domain : ∀ t, Prompt (k.problem.solutionDomain t)) (t : Rat)
    (y : State Rat) : Prompt (k.deviation t y) := by
  unfold deviation
  refine prompt_bind (prompt_bind (domain t) fun _ => prompt_ok _) fun exact_ => ?_
  refine prompt_bind (prompt_requireFit _) fun _ => ?_
  split
  · exact prompt_ok _
  · exact nofun

/-- A tracker comes to an end when it hears of a piece, and keeps its problem. -/
theorem Tracker.halts_accept (piece : Window Rat) (last : Bool) :
    (accept piece last : Effect (Tracker ω Rat) Rat Unit).HaltsIn fun k => ∀ t, Prompt (k.problem.solutionDomain t) := by
  refine halts_get fun k domain => ?_
  refine halts_bind (halts_lift (prompt_bind (piece.prompt_stateAt _) fun y => prompt_deviation domain _ y)
    fun _ _ => id) fun error => ?_
  refine halts_bind (J := fun _ k => ∀ t, Prompt (k.problem.solutionDomain t))
    (haltsIn_modify fun _ domain => domain) fun _ => ?_
  cases last with
  | false => exact halts_pure fun _ => id
  | true =>
    exact halts_bind (halts_lift (prompt_deviation domain _ _) fun _ _ => id) fun final =>
      haltsIn_modify fun _ domain => domain

/-- An observer comes to an end when it hears of a piece: a sampler takes a time of its own at every turn of its loop,
and a normalizer has room for all points of its grid. -/
theorem Observer.halts_accept (gaps : ∀ x : Rat, 0 ≤ Spacing.ulp x) (piece : Window Rat) (last : Bool) :
    (Observer.accept piece last : Effect (Observer ω Rat × ω) Rat Unit).HaltsIn fun p => p.1.Served := by
  rintro ⟨o, w⟩ served
  cases o with
  | recorder r => exact ⟨nofun, fun _ _ => trivial⟩
  | sampler s =>
    rw [Observer.runFrom_accept_sampler]
    exact ⟨Sampler.prompt_take s.forward piece s.pending s.latestRows, fun _ _ => trivial⟩
  | normalizer n =>
    obtain ⟨⟨forward, grid⟩, callback⟩ := served
    obtain ⟨other, grid', same⟩ := Normalizer.accept_halts (w := w) gaps piece last grid callback
    rw [Observer.runFrom_accept_normalizer]
    exact ⟨other, fun _ _ => ⟨⟨forward, grid'⟩, same ▸ callback⟩⟩
  | tracker k =>
    rw [Observer.runFrom_accept_tracker]
    exact Tracker.halts_accept piece last k served
  | custom onStart onPiece =>
    rw [Observer.runFrom_accept_custom]
    exact ⟨(served.2 piece last w trivial).1, fun _ _ => served⟩

end Trajectory
