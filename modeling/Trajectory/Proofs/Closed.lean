import Mathlib.Tactic
import Trajectory.Event.Monitor

/-!
What a search for events is put together from.

A search calls its switching function and goes on with what it returns; everything else in it is known
beforehand. A kind of computations that contains the known outcomes and is closed under composition
(`Effect.Closed`) therefore contains the search along every switching function of that kind
(`Channel.closed_firstRoot`). This holds for every kind of scalars.
-/

namespace Trajectory

variable {ω α β : Type}

/-- A kind of computations of the caller to which the known outcomes and all compositions belong. -/
structure Effect.Closed (K : (β : Type) → Effect ω α β → Prop) : Prop where
  lift : ∀ {β : Type} (x : Except (Error α) β), K β (liftM x)
  bind : ∀ {β γ : Type} {x : Effect ω α β} {f : β → Effect ω α γ}, K β x → (∀ b, K γ (f b)) → K γ (x >>= f)

namespace Effect.Closed

variable {K : (β : Type) → Effect ω α β → Prop} (closed : Closed K)

include closed

theorem pure (b : β) : K β (Pure.pure b) := closed.lift (.ok b)

theorem throw (e : Error α) : K β (MonadExcept.throw e) := closed.lift (.error e)

omit closed in
theorem ite {p : Prop} [Decidable p] {x y : Effect ω α β} (first : K β x) (second : K β y) :
    K β (if p then x else y) := by
  split
  · exact first
  · exact second

end Effect.Closed

open Effect

variable [Scalar α] {K : (β : Type) → Effect ω α β → Prop} (closed : Closed K) {g : α → Effect ω α α}
  (each : ∀ t, K α (g t))

include closed each

theorem RootSearch.closed_refine (search : RootSearch α) (endPositive : Bool) (left : Nat) (b : Bracket α) :
    K α (search.refine g endPositive left b) := by
  induction left generalizing b with
  | zero =>
    unfold refine
    dsimp only
    split
    · exact closed.pure _
    · exact closed.throw _
  | succ left ih =>
    unfold refine
    dsimp only
    split
    · exact closed.pure _
    · apply closed.bind (closed.lift _)
      intro b
      exact closed.bind (each b.xCur) fun y => ih _

/-- A search between two ends where the values are known. -/
theorem RootSearch.closed_solve (search : RootSearch α) (a b fa fb : α) :
    K α (search.solve g a b (some fa) (some fb)) := by
  unfold solve
  apply closed.bind (closed.pure fa)
  intro fa
  apply closed.bind (closed.pure fb)
  intro fb
  apply Closed.ite (closed.pure a)
  apply Closed.ite (closed.pure b)
  exact Closed.ite (closed.throw _) (closed_refine closed each search _ _ _)

namespace Channel

variable (c : Channel ω α) (forward : Bool)

theorem closed_nudged (ta ga tb : α) : K (α × α) (c.nudged forward g ta ga tb) :=
  Closed.ite (closed.bind (each _) fun _ => closed.pure _) (closed.pure _)

theorem closed_between (tb gb : α) (rounds : Nat) (ta ga : α) :
    K (Finding α) (c.between forward g tb gb rounds ta ga) := by
  induction rounds generalizing ta ga with
  | zero => exact closed.throw _
  | succ rounds ih =>
    unfold between
    apply closed.bind (closed_nudged closed each c forward ta ga tb)
    rintro ⟨x, gx⟩
    apply Closed.ite _ (closed.pure _)
    apply closed.bind (RootSearch.closed_solve closed each _ _ _ _ _)
    intro root
    apply Closed.ite (closed.pure _)
    apply closed.bind (each root)
    intro gRoot
    exact Closed.ite (closed.pure _) (ih root gRoot)

theorem closed_through (samples : List α) (ta ga : α) :
    K (Option (Crossing α)) (c.through forward g samples ta ga) := by
  induction samples generalizing ta ga with
  | nil => exact closed.pure none
  | cons tb rest ih =>
    unfold through
    apply closed.bind (each tb)
    intro gb
    apply closed.bind (closed_between closed each c forward _ _ _ _ _)
    intro finding
    cases finding with
    | crossing found => exact closed.pure _
    | clear => exact ih tb gb

end Channel

omit each

variable [Spacing α] {c : Channel ω α}

/-- The search of a channel is of the kind of its switching function. -/
theorem Channel.closed_firstRoot (forward : Bool) (w : Window α) (each : ∀ t y, K α (c.handler.g t y)) :
    K (Option (Crossing α)) (c.firstRoot forward w) := by
  unfold firstRoot
  apply Closed.ite (closed.pure none)
  apply closed.bind (closed.lift _)
  intro n
  exact closed_through closed (fun t => closed.bind (closed.lift _) fun y => each t y) c forward _ _ _

theorem Monitor.closed_candidates (forward : Bool) (w : Window α) (base : Nat) {channels : List (Channel ω α)}
    (each : ∀ c ∈ channels, ∀ t y, K α (c.handler.g t y)) :
    K (List (Candidate α)) (candidates forward w base channels) := by
  induction channels generalizing base with
  | nil => exact closed.pure []
  | cons c rest ih =>
    unfold candidates
    apply closed.bind (Channel.closed_firstRoot closed forward w (each c List.mem_cons_self))
    intro found
    apply closed.bind (ih (base + 1) fun c mem => each c (List.mem_cons_of_mem _ mem))
    intro later
    cases found with
    | none => exact closed.pure _
    | some found => exact closed.pure _

end Trajectory
