import Mathlib.Tactic
import Trajectory.Effect

/-!
Computations that agree.

Two computations agree if from states that belong together they end in states that belong together,
with outcomes that match: two values that belong together, or two failures that do. The states of the
two need not be of one type. An `agree_` lemma stands for every operation, so that the agreement of
two programs follows their text.
-/

namespace Trajectory

variable {σ σ' τ τ' ω β β' γ γ' : Type}

/-- Both outcomes are values that belong together, or both are failures that do. -/
inductive Matched (bad : Error Rat → Error Rat → Prop) (ok : β → β' → Prop) :
    Except (Error Rat) β → Except (Error Rat) β' → Prop where
  | ok {b b'} (related : ok b b') : Matched bad ok (.ok b) (.ok b')
  | error {e e'} (related : bad e e') : Matched bad ok (.error e) (.error e')

/-- Two lists whose elements belong together place by place, the first place having a given number. -/
inductive Indexed (R : Nat → β → β' → Prop) : Nat → List β → List β' → Prop where
  | nil {i} : Indexed R i [] []
  | cons {i a a' l l'} (related : R i a a') (rest : Indexed R (i + 1) l l') : Indexed R i (a :: l) (a' :: l')

namespace Indexed

variable {R : Nat → β → β' → Prop} {l : List β} {l' : List β'} {base : Nat}

theorem getElem? (all : Indexed R base l l') (i : Nat) :
    (l[i]? = none ∧ l'[i]? = none) ∨ ∃ a a', l[i]? = some a ∧ l'[i]? = some a' ∧ R (base + i) a a' := by
  induction all generalizing i with
  | nil => exact Or.inl ⟨rfl, rfl⟩
  | cons related rest ih =>
    cases i with
    | zero => exact Or.inr ⟨_, _, rfl, rfl, related⟩
    | succ i =>
      have place : ∀ n : Nat, n + 1 + i = n + (i + 1) := fun n => by omega
      rw [← place]
      exact ih i

theorem set (all : Indexed R base l l') {i : Nat} {a : β} {a' : β'} (related : R (base + i) a a') :
    Indexed R base (l.set i a) (l'.set i a') := by
  induction all generalizing i with
  | nil => exact .nil
  | @cons n _ _ _ _ first rest ih =>
    cases i with
    | zero => exact .cons related rest
    | succ i =>
      have place : n + (i + 1) = n + 1 + i := by omega
      rw [place] at related
      exact .cons first (ih related)

theorem mono {S : Nat → β → β' → Prop} (all : Indexed R base l l') (weaker : ∀ i a a', R i a a' → S i a a') :
    Indexed S base l l' := by
  induction all with
  | nil => exact .nil
  | cons related _ ih => exact .cons (weaker _ _ _ related) ih

theorem map {S : Nat → γ → γ' → Prop} {f : β → γ} {f' : β' → γ'} (all : Indexed R base l l')
    (kept : ∀ i, ∀ a ∈ l, ∀ a', R i a a' → S i (f a) (f' a')) : Indexed S base (l.map f) (l'.map f') := by
  induction all with
  | nil => exact .nil
  | cons related _ ih =>
    exact .cons (kept _ _ List.mem_cons_self _ related) (ih fun i a mem => kept i a (List.mem_cons_of_mem _ mem))

theorem of_map {f : β → β'} (each : ∀ i a, R i a (f a)) (l : List β) (base : Nat) : Indexed R base l (l.map f) := by
  induction l generalizing base with
  | nil => exact .nil
  | cons a l ih => exact .cons (each base a) (ih (base + 1))

theorem of_mapIdx {f : Nat → β → β'} (each : ∀ i a, R (base + i) a (f i a)) : Indexed R base l (l.mapIdx f) := by
  induction l generalizing base f with
  | nil => exact .nil
  | cons a l ih =>
    rw [List.mapIdx_cons]
    apply Indexed.cons (each 0 a)
    apply ih
    intro i b
    have place : base + 1 + i = base + (i + 1) := by omega
    rw [place]
    exact each (i + 1) b

theorem of_forall₂ {R : β → β' → Prop} (all : List.Forall₂ R l l') (base : Nat) :
    Indexed (fun _ => R) base l l' := by
  induction all generalizing base with
  | nil => exact .nil
  | cons related _ ih => exact .cons related (ih (base + 1))

theorem forall₂ {R : β → β' → Prop} (all : Indexed (fun _ => R) base l l') : List.Forall₂ R l l' := by
  induction all with
  | nil => exact .nil
  | cons related _ ih => exact .cons related ih

theorem length_eq (all : Indexed R base l l') : l.length = l'.length := by
  induction all with
  | nil => rfl
  | cons _ _ ih => exact congrArg (· + 1) ih

end Indexed

section

variable {bad : Error Rat → Error Rat → Prop} {ok : β → β' → Prop} {ok' : γ → γ' → Prop}

theorem Matched.bind {r : Except (Error Rat) β} {r' : Except (Error Rat) β'} {f : β → Except (Error Rat) γ}
    {f' : β' → Except (Error Rat) γ'} (first : Matched bad ok r r')
    (rest : ∀ b b', ok b b' → Matched bad ok' (f b) (f' b')) : Matched bad ok' (r >>= f) (r' >>= f') := by
  cases first with
  | ok related => exact rest _ _ related
  | error related => exact .error related

theorem Matched.imp {r : Except (Error Rat) β} {r' : Except (Error Rat) β'} {bad' : Error Rat → Error Rat → Prop}
    {weaker : β → β' → Prop} (first : Matched bad ok r r') (failures : ∀ e e', bad e e' → bad' e e')
    (values : ∀ b b', ok b b' → weaker b b') : Matched bad' weaker r r' := by
  cases first with
  | ok related => exact .ok (values _ _ related)
  | error related => exact .error (failures _ _ related)

theorem Matched.mono {r : Except (Error Rat) β} {r' : Except (Error Rat) β'} {weaker : β → β' → Prop}
    (first : Matched bad ok r r') (implies : ∀ b b', ok b b' → weaker b b') : Matched bad weaker r r' :=
  first.imp (fun _ _ same => same) implies

/-- Outcomes that match by equality are the same. -/
theorem Matched.eq {r r' : Except (Error Rat) β} (same : Matched (fun e e' => e' = e) (fun b b' => b' = b) r r') :
    r' = r := by
  cases same with
  | ok related => exact congrArg _ related
  | error related => exact congrArg _ related

/-- An outcome matches the same one with its value changed. -/
theorem Matched.map (same : ∀ e, bad e e) (g : β → β') (r : Except (Error Rat) β) :
    Matched bad (fun b b' => b' = g b) r (r.map g) := by
  cases r with
  | ok b => exact .ok rfl
  | error e => exact .error (same e)

/-- An outcome matches itself. -/
theorem Matched.refl (same : ∀ e, bad e e) (r : Except (Error Rat) β) : Matched bad Eq r r := by
  cases r with
  | ok b => exact .ok rfl
  | error e => exact .error (same e)

end

namespace Effect

/-- From states that belong together, two computations end in outcomes that match and in states that
belong together. -/
def Agree (bad : Error Rat → Error Rat → Prop) (state : σ → σ' → Prop) (ok : β → β' → Prop) (x : Effect σ Rat β)
    (x' : Effect σ' Rat β') : Prop :=
  ∀ s s', state s s' →
    Matched bad ok (x.runFrom s).1 (x'.runFrom s').1 ∧ state (x.runFrom s).2 (x'.runFrom s').2

/-- Two computations that agree, and that lead to states that belong together more closely if they
succeed. -/
def Leads (bad : Error Rat → Error Rat → Prop) (state closer : σ → σ' → Prop) (ok : β → β' → Prop)
    (x : Effect σ Rat β) (x' : Effect σ' Rat β') : Prop :=
  ∀ s s', state s s' →
    Matched bad ok (x.runFrom s).1 (x'.runFrom s').1 ∧ state (x.runFrom s).2 (x'.runFrom s').2 ∧
      ((∃ b, (x.runFrom s).1 = .ok b) → closer (x.runFrom s).2 (x'.runFrom s').2)

/-- Parts of two states belong together, and the states of the callers are the same. -/
def Beside (R : σ → σ' → Prop) (s : σ × ω) (s' : σ' × ω) : Prop := R s.1 s'.1 ∧ s.2 = s'.2

variable {bad : Error Rat → Error Rat → Prop} {state closer : σ → σ' → Prop} {ok : β → β' → Prop} {ok' : γ → γ' → Prop}

theorem agree_pure {b : β} {b' : β'} (related : ok b b') :
    (pure b : Effect σ Rat β).Agree bad state ok (pure b' : Effect σ' Rat β') :=
  fun _ _ together => ⟨.ok related, together⟩

theorem agree_throw {e e' : Error Rat} (related : bad e e') :
    (throw e : Effect σ Rat β).Agree bad state ok (throw e' : Effect σ' Rat β') :=
  fun _ _ together => ⟨.error related, together⟩

theorem agree_lift {r : Except (Error Rat) β} {r' : Except (Error Rat) β'} (matched : Matched bad ok r r') :
    (liftM r : Effect σ Rat β).Agree bad state ok (liftM r' : Effect σ' Rat β') := by
  intro s s' together
  rw [runFrom_lift, runFrom_lift]
  exact ⟨matched, together⟩

theorem agree_get : (get : Effect σ Rat σ).Agree bad state state (get : Effect σ' Rat σ') :=
  fun _ _ together => ⟨.ok together, together⟩

theorem agree_modify {f : σ → σ} {f' : σ' → σ'} (kept : ∀ s s', state s s' → state (f s) (f' s')) :
    (modify f : Effect σ Rat PUnit).Agree bad state (fun _ _ => True) (modify f' : Effect σ' Rat PUnit) :=
  fun s s' together => ⟨.ok trivial, kept s s' together⟩

theorem agree_bind {x : Effect σ Rat β} {x' : Effect σ' Rat β'} {f : β → Effect σ Rat γ} {f' : β' → Effect σ' Rat γ'}
    (first : x.Agree bad state ok x') (rest : ∀ b b', ok b b' → (f b).Agree bad state ok' (f' b')) :
    (x >>= f).Agree bad state ok' (x' >>= f') := by
  intro s s' together
  obtain ⟨matched, together'⟩ := first s s' together
  rw [runFrom_bind, runFrom_bind]
  rcases ran : x.runFrom s with ⟨r, t⟩
  rcases ran' : x'.runFrom s' with ⟨r', t'⟩
  rw [ran, ran'] at matched together'
  cases matched with
  | ok related => exact rest _ _ related t t' together'
  | error related => exact ⟨.error related, together'⟩

theorem Agree.mono {x : Effect σ Rat β} {x' : Effect σ' Rat β'} {weaker : β → β' → Prop}
    (first : x.Agree bad state ok x') (implies : ∀ b b', ok b b' → weaker b b') : x.Agree bad state weaker x' := by
  intro s s' together
  obtain ⟨matched, together'⟩ := first s s' together
  exact ⟨matched.mono implies, together'⟩

theorem agree_ite {p p' : Prop} [Decidable p] [Decidable p'] {x y : Effect σ Rat β} {x' y' : Effect σ' Rat β'}
    (same : p' ↔ p) (first : p → x.Agree bad state ok x') (second : ¬ p → y.Agree bad state ok y') :
    (if p then x else y).Agree bad state ok (if p' then x' else y') := by
  by_cases holds : p
  · rw [if_pos holds, if_pos (same.mpr holds)]
    exact first holds
  · rw [if_neg holds, if_neg (same.not.mpr holds)]
    exact second holds

/-- The same computation with its value changed. -/
theorem agree_map (same : ∀ e, bad e e) (g : β → β') (x : Effect ω Rat β) :
    x.Agree bad Eq (fun b b' => b' = g b) (g <$> x) := by
  rintro s _ rfl
  rw [runFrom_map]
  rcases x.runFrom s with ⟨b | e, t⟩
  · exact ⟨.error (same _), rfl⟩
  · exact ⟨.ok rfl, rfl⟩

/-- A computation agrees with itself. -/
theorem agree_refl (same : ∀ e, bad e e) (x : Effect ω Rat β) : x.Agree bad Eq Eq x := by
  rintro s _ rfl
  exact ⟨.refl same _, rfl⟩

theorem agree_within {whole : τ → τ' → Prop} {get : τ → σ} {put : σ → τ → τ} {get' : τ' → σ'} {put' : σ' → τ' → τ'}
    {x : Effect σ Rat β} {x' : Effect σ' Rat β'} (read : ∀ t t', whole t t' → state (get t) (get' t'))
    (write : ∀ t t' s s', whole t t' → state s s' → whole (put s t) (put' s' t')) (agree : x.Agree bad state ok x') :
    (within get put x).Agree bad whole ok (within get' put' x') := by
  intro t t' together
  obtain ⟨matched, together'⟩ := agree _ _ (read t t' together)
  exact ⟨matched, write t t' _ _ together together'⟩

theorem agree_onSecond {R : σ → σ' → Prop} {x : Effect ω Rat β} {x' : Effect ω Rat β'} (agree : x.Agree bad Eq ok x') :
    (onSecond x : Effect (σ × ω) Rat β).Agree bad (Beside R) ok (onSecond x') :=
  agree_within (fun _ _ together => together.2) (fun _ _ _ _ together same => ⟨together.1, same⟩) agree

/-- What follows a success may rely on what it has led to. -/
theorem leads_bind {x : Effect σ Rat β} {x' : Effect σ' Rat β'} {f : β → Effect σ Rat γ} {f' : β' → Effect σ' Rat γ'}
    (first : x.Leads bad state closer ok x') (rest : ∀ b b', ok b b' → (f b).Agree bad closer ok' (f' b'))
    (weaker : ∀ s s', closer s s' → state s s') : (x >>= f).Agree bad state ok' (x' >>= f') := by
  intro s s' together
  obtain ⟨matched, together', led⟩ := first s s' together
  rw [runFrom_bind, runFrom_bind]
  rcases ran : x.runFrom s with ⟨r, t⟩
  rcases ran' : x'.runFrom s' with ⟨r', t'⟩
  rw [ran, ran'] at matched together' led
  cases matched with
  | error related => exact ⟨.error related, together'⟩
  | ok related =>
    obtain ⟨matched, ended⟩ := rest _ _ related t t' (led ⟨_, rfl⟩)
    exact ⟨matched, weaker _ _ ended⟩

/-- A change that relates two states more closely, before computations that agree. -/
theorem leads_modify_bind {f : σ → σ} {f' : σ' → σ'} {x : PUnit → Effect σ Rat β} {x' : PUnit → Effect σ' Rat β'}
    (turned : ∀ s s', state s s' → closer (f s) (f' s')) (weaker : ∀ s s', closer s s' → state s s')
    (rest : ∀ u u', (x u).Agree bad closer ok (x' u')) :
    (modify f >>= x).Leads bad state closer ok (modify f' >>= x') := by
  intro s s' together
  obtain ⟨matched, kept⟩ := rest ⟨⟩ ⟨⟩ _ _ (turned s s' together)
  rw [runFrom_bind, runFrom_bind, runFrom_modify, runFrom_modify]
  exact ⟨matched, weaker _ _ kept, fun _ => kept⟩

theorem leads_within {whole whole' : τ → τ' → Prop} {get : τ → σ} {put : σ → τ → τ} {get' : τ' → σ'}
    {put' : σ' → τ' → τ'} {x : Effect σ Rat β} {x' : Effect σ' Rat β'} (read : ∀ t t', whole t t' → state (get t) (get' t'))
    (write : ∀ t t' s s', whole t t' → state s s' → whole (put s t) (put' s' t'))
    (lift : ∀ t t' s s', whole t t' → closer s s' → whole' (put s t) (put' s' t'))
    (leads : x.Leads bad state closer ok x') : (within get put x).Leads bad whole whole' ok (within get' put' x') := by
  intro t t' together
  obtain ⟨matched, together', led⟩ := leads _ _ (read t t' together)
  exact ⟨matched, write t t' _ _ together together', fun done => lift t t' _ _ together (led done)⟩

/-- Elements that belong together are made to belong together more closely, place by place. Those
that a failure keeps from their turn still belong together as before. -/
theorem leads_forEach {R S : Nat → σ → σ' → Prop} {x : Effect (σ × ω) Rat Unit} {x' : Effect (σ' × ω) Rat Unit}
    (each : ∀ i a a' w, R i a a' → Matched bad (fun _ _ => True) (x.runFrom (a, w)).1 (x'.runFrom (a', w)).1 ∧
      Beside (S i) (x.runFrom (a, w)).2 (x'.runFrom (a', w)).2)
    (weaker : ∀ i a a', S i a a' → R i a a') (base : Nat) :
    (forEach x).Leads bad (Beside (Indexed R base)) (Beside (Indexed S base)) (fun _ _ => True) (forEach x') := by
  rintro ⟨l, w⟩ ⟨l', w'⟩ ⟨all, same⟩
  dsimp only at all same
  subst same
  induction all generalizing w with
  | nil => exact ⟨.ok trivial, ⟨.nil, rfl⟩, fun _ => ⟨.nil, rfl⟩⟩
  | @cons i a a' l l' related rest ih =>
    obtain ⟨matched, together⟩ := each i a a' w related
    rw [runFrom_forEach_cons, runFrom_forEach_cons]
    rcases ran : x.runFrom (a, w) with ⟨r, b, v⟩
    rcases ran' : x'.runFrom (a', w) with ⟨r', b', v'⟩
    rw [ran, ran'] at matched together
    obtain ⟨related', same⟩ := together
    dsimp only at related' same
    subst same
    cases matched with
    | error failed =>
      refine ⟨.error failed, ⟨.cons (weaker _ _ _ related') rest, rfl⟩, ?_⟩
      rintro ⟨_, impossible⟩
      cases impossible
    | ok _ =>
      obtain ⟨matched', ⟨rest', same⟩, led⟩ := ih v
      exact ⟨matched', ⟨.cons (weaker _ _ _ related') rest', same⟩, fun done => ⟨.cons related' (led done).1, same⟩⟩

/-- Two computations agree on lists if they agree on their elements place by place. -/
theorem agree_forEach {R : Nat → σ → σ' → Prop} {x : Effect (σ × ω) Rat Unit} {x' : Effect (σ' × ω) Rat Unit}
    (each : ∀ i, x.Agree bad (Beside (R i)) (fun _ _ => True) x') (base : Nat) :
    (forEach x).Agree bad (Beside (Indexed R base)) (fun _ _ => True) (forEach x') := by
  intro s s' together
  obtain ⟨matched, together', _⟩ :=
    leads_forEach (fun i a a' v related => each i (a, v) (a', v) ⟨related, rfl⟩) (fun _ _ _ same => same) base s s'
      together
  exact ⟨matched, together'⟩

end Effect

end Trajectory
