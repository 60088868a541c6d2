import Trajectory.Error

/-!
Computations that may fail and that change a state.

A failure keeps the state reached so far: what happened before it has happened. The functions a caller supplies
(right-hand sides, switching functions, observers) run in such a computation over a state `ω` of the caller's
own, about which the library knows nothing; each part of the library runs over the state it owns together with
that one. `Effect.within` runs a computation on a part of a larger state, and `Effect.forEach` runs one on every
element of a list, up to the first failure.

The view of a computation is `Effect.runFrom`: its outcome and its last state, from a given state. A `runFrom_`
lemma stands beside every operation.
-/

namespace Trajectory

/-- A computation over a state of type `σ` that ends in a value or in an error, and in a state either way. -/
abbrev Effect (σ α β : Type) : Type := ExceptT (Error α) (StateM σ) β

namespace Effect

variable {σ τ ω α β γ : Type}

/-- A computation given by what it does to a state. -/
def of (x : σ → Except (Error α) β × σ) : Effect σ α β := ExceptT.mk x

/-- The outcome of a computation from a state, and the state in which it ends. -/
def runFrom (x : Effect σ α β) (s : σ) : Except (Error α) β × σ := ExceptT.run x s

@[simp] theorem runFrom_of (f : σ → Except (Error α) β × σ) (s : σ) : (of f).runFrom s = f s := rfl

@[simp] theorem runFrom_pure (b : β) (s : σ) :
    (pure b : Effect σ α β).runFrom s = (.ok b, s) := rfl

@[simp] theorem runFrom_throw (e : Error α) (s : σ) :
    (throw e : Effect σ α β).runFrom s = (.error e, s) := rfl

/-- What follows a failure does not run. -/
@[simp] theorem runFrom_bind (x : Effect σ α β) (f : β → Effect σ α γ) (s : σ) :
    (x >>= f).runFrom s = match x.runFrom s with
      | (.ok b, s') => (f b).runFrom s'
      | (.error e, s') => (.error e, s') := by
  simp only [runFrom, ExceptT.run, bind, ExceptT.bind, ExceptT.mk, StateT.bind]
  cases x s with
  | mk result s' => cases result <;> rfl

@[simp] theorem runFrom_map (g : β → γ) (x : Effect σ α β) (s : σ) :
    (g <$> x).runFrom s = match x.runFrom s with
      | (.ok b, s') => (.ok (g b), s')
      | (.error e, s') => (.error e, s') := by
  rw [← bind_pure_comp, runFrom_bind]
  rfl

@[simp] theorem runFrom_get (s : σ) : (get : Effect σ α σ).runFrom s = (.ok s, s) := rfl

@[simp] theorem runFrom_modify (f : σ → σ) (s : σ) :
    (modify f : Effect σ α PUnit).runFrom s = (.ok ⟨⟩, f s) := rfl

/-- Computations with the same outcomes are equal. -/
theorem ext_runFrom {x y : Effect σ α β} (h : ∀ s, x.runFrom s = y.runFrom s) : x = y :=
  funext h

/-- An outcome that is already known leaves the state as it is. -/
@[simp] theorem runFrom_lift (x : Except (Error α) β) (s : σ) :
    (liftM x : Effect σ α β).runFrom s = (x, s) := by
  cases x <;> rfl

/-- Runs a computation on the part of the state that `get` reads and `put` writes back. -/
def within (get : τ → σ) (put : σ → τ → τ) (x : Effect σ α β) : Effect τ α β :=
  of fun t => match x.runFrom (get t) with
    | (r, s) => (r, put s t)

@[simp] theorem runFrom_within (get : τ → σ) (put : σ → τ → τ) (x : Effect σ α β) (t : τ) :
    (within get put x).runFrom t = ((x.runFrom (get t)).1, put (x.runFrom (get t)).2 t) := rfl

/-- The outcome and the changed elements of `forEach`. -/
def forEachFrom (x : Effect (σ × ω) α Unit) : List σ → ω → Except (Error α) Unit × List σ × ω
  | [], w => (.ok (), [], w)
  | a :: rest, w =>
    match x.runFrom (a, w) with
    | (.error e, a', w') => (.error e, a' :: rest, w')
    | (.ok (), a', w') =>
      match forEachFrom x rest w' with
      | (r, rest', w'') => (r, a' :: rest', w'')

/-- Runs a computation on each element in order. The first failure leaves the later elements as they were. -/
def forEach (x : Effect (σ × ω) α Unit) : Effect (List σ × ω) α Unit :=
  of fun s => forEachFrom x s.1 s.2

@[simp] theorem runFrom_forEach_nil (x : Effect (σ × ω) α Unit) (w : ω) :
    (forEach x).runFrom ([], w) = (.ok (), [], w) := rfl

theorem runFrom_forEach_cons (x : Effect (σ × ω) α Unit) (a : σ) (rest : List σ) (w : ω) :
    (forEach x).runFrom (a :: rest, w) = match x.runFrom (a, w) with
      | (.error e, a', w') => (.error e, a' :: rest, w')
      | (.ok (), a', w') =>
        match (forEach x).runFrom (rest, w') with
        | (r, rest', w'') => (r, a' :: rest', w'') := rfl

/-- Runs a computation on the second part of a pair. -/
def onSecond (x : Effect ω α β) : Effect (σ × ω) α β :=
  within Prod.snd (fun w s => (s.1, w)) x

@[simp] theorem runFrom_onSecond (x : Effect ω α β) (a : σ) (w : ω) :
    (onSecond x).runFrom (a, w) = ((x.runFrom w).1, a, (x.runFrom w).2) := rfl

end Effect

end Trajectory
