import Mathlib.Tactic
import Trajectory.Effect

/-!
Outcomes of computations, taken apart.

A computation of a caller is known by what it may return: `Effect.Returns` forgets the state from
which it ran, and `Effect.Ends` says how it can end from any state. The remaining lemmas split the
success of a composed computation into the successes of its parts, and the success of a computation on
every element of a list into those of the elements. `Effect.Carries` compares the successes of one
computation from two states.
-/

namespace Trajectory

theorem except_bind_ok {ε β γ : Type} {x : Except ε β} {f : β → Except ε γ} {c : γ} :
    (x >>= f) = .ok c ↔ ∃ b, x = .ok b ∧ f b = .ok c := by
  cases x with
  | ok b =>
    constructor
    · exact fun ran => ⟨b, rfl, ran⟩
    · rintro ⟨_, same, ran⟩
      cases same
      exact ran
  | error e =>
    constructor
    · intro ran
      cases ran
    · rintro ⟨_, same, _⟩
      cases same

theorem except_bind_error {ε β γ : Type} {x : Except ε β} {f : β → Except ε γ} {e : ε} :
    (x >>= f) = .error e ↔ x = .error e ∨ ∃ b, x = .ok b ∧ f b = .error e := by
  cases x with
  | ok b =>
    constructor
    · exact fun ran => Or.inr ⟨b, rfl, ran⟩
    · rintro (same | ⟨_, same, ran⟩)
      · cases same
      · cases same
        exact ran
  | error e' =>
    constructor
    · intro ran
      cases ran
      exact Or.inl rfl
    · rintro (same | ⟨_, same, _⟩)
      · cases same
        rfl
      · cases same

theorem except_guard_ok {ε β γ : Type} {fails : Prop} [Decidable fails] {e : ε} {f : β → Except ε γ}
    {rest : Except ε γ} {c : γ} :
    (if fails then (throw e >>= f) else rest) = .ok c ↔ ¬ fails ∧ rest = .ok c := by
  by_cases failing : fails
  · rw [if_pos failing]
    constructor
    · intro ran
      cases ran
    · exact fun passed => absurd failing passed.1
  · rw [if_neg failing]
    exact ⟨fun ran => ⟨failing, ran⟩, fun passed => passed.2⟩

theorem except_guard_error {ε β γ : Type} {fails : Prop} [Decidable fails] {e e' : ε} {f : β → Except ε γ}
    {rest : Except ε γ} :
    (if fails then (throw e >>= f) else rest) = .error e' ↔ fails ∧ e = e' ∨ ¬ fails ∧ rest = .error e' := by
  by_cases failing : fails
  · rw [if_pos failing]
    constructor
    · intro ran
      cases ran
      exact Or.inl ⟨failing, rfl⟩
    · rintro (⟨_, rfl⟩ | ⟨passed, _⟩)
      · rfl
      · exact absurd failing passed
  · rw [if_neg failing]
    constructor
    · exact fun ran => Or.inr ⟨failing, ran⟩
    · rintro (⟨fails, _⟩ | ⟨_, ran⟩)
      · exact absurd fails failing
      · exact ran

theorem forall₂_getElem? {β γ : Type} {R : β → γ → Prop} {l : List β} {m : List γ} (all : List.Forall₂ R l m) {i : Nat}
    {c : γ} (at_ : m[i]? = some c) : ∃ b, l[i]? = some b ∧ R b c := by
  obtain ⟨bound, rfl⟩ := List.getElem?_eq_some_iff.mp at_
  have bound' : i < l.length := all.length_eq ▸ bound
  exact ⟨l[i], List.getElem?_eq_getElem bound', by simpa using all.get bound' bound⟩

/-- What belongs to the last element of a list is the last one of what belongs to the list. -/
theorem forall₂_concat {β γ : Type} {R : β → γ → Prop} {l : List β} {b : β} {m : List γ}
    (all : List.Forall₂ R (l ++ [b]) m) : ∃ m' c, m = m' ++ [c] ∧ R b c := by
  induction l generalizing m with
  | nil =>
    cases all with
    | cons related ended =>
      cases ended
      exact ⟨[], _, rfl, related⟩
  | cons a rest ih =>
    cases all with
    | cons _ others =>
      obtain ⟨m', c, rfl, related⟩ := ih others
      exact ⟨_ :: m', c, rfl, related⟩

/-- Lists that both belong to a third one belong together. -/
theorem forall₂_meet {α β γ : Type} {R : α → β → Prop} {S : α → γ → Prop} {T : β → γ → Prop} {l : List α} {m : List β}
    {n : List γ} (first : List.Forall₂ R l m) (second : List.Forall₂ S l n) (meet : ∀ a b c, R a b → S a c → T b c) :
    List.Forall₂ T m n := by
  induction first generalizing n with
  | nil =>
    cases second
    exact .nil
  | cons related _ ih =>
    cases second with
    | cons other others => exact .cons (meet _ _ _ related other) (ih others)

namespace Effect

variable {σ τ ω α β γ : Type}

/-- A computation returns a value from some state. -/
def Returns (x : Effect σ α β) (b : β) : Prop := ∃ s s', x.runFrom s = (.ok b, s')

/-- A computation fails in some way from some state. -/
def Raises (x : Effect σ α β) (e : Error α) : Prop := ∃ s s', x.runFrom s = (.error e, s')

/-- A computation that does not fail. -/
def Unfailing (x : Effect σ α Unit) : Prop := ∀ s, ∃ s', x.runFrom s = (.ok (), s')

/-- A computation returns a value of some kind from every state. -/
def Yields (P : β → Prop) (x : Effect σ α β) : Prop := ∀ s, ∃ b s', x.runFrom s = (.ok b, s') ∧ P b

/-- From every state a computation ends with a value of one kind or with a failure of another. -/
def Ends (ok : β → Prop) (bad : Error α → Prop) (x : Effect σ α β) : Prop :=
  ∀ s, (∀ b s', x.runFrom s = (.ok b, s') → ok b) ∧ ∀ e s', x.runFrom s = (.error e, s') → bad e

theorem returns_of_runFrom {x : Effect σ α β} {b : β} {s s' : σ} (ran : x.runFrom s = (.ok b, s')) :
    x.Returns b := ⟨s, s', ran⟩

theorem eq_of_returns_pure {b c : β} (returned : (pure b : Effect σ α β).Returns c) : c = b := by
  obtain ⟨s, s', ran⟩ := returned
  rw [runFrom_pure] at ran
  cases ran
  rfl

theorem runFrom_bind_ok {x : Effect σ α β} {f : β → Effect σ α γ} {s s'' : σ} {c : γ} :
    (x >>= f).runFrom s = (.ok c, s'') ↔
      ∃ b s', x.runFrom s = (.ok b, s') ∧ (f b).runFrom s' = (.ok c, s'') := by
  rw [runFrom_bind]
  cases first : x.runFrom s with
  | mk outcome s' =>
    cases outcome with
    | ok b =>
      constructor
      · exact fun ran => ⟨b, s', rfl, ran⟩
      · rintro ⟨_, _, same, ran⟩
        cases same
        exact ran
    | error e =>
      constructor
      · intro ran
        cases ran
      · rintro ⟨_, _, same, _⟩
        cases same

theorem runFrom_bind_error {x : Effect σ α β} {f : β → Effect σ α γ} {s s'' : σ} {e : Error α} :
    (x >>= f).runFrom s = (.error e, s'') ↔ x.runFrom s = (.error e, s'') ∨
      ∃ b s', x.runFrom s = (.ok b, s') ∧ (f b).runFrom s' = (.error e, s'') := by
  rw [runFrom_bind]
  cases first : x.runFrom s with
  | mk outcome s' =>
    cases outcome with
    | ok b =>
      constructor
      · exact fun ran => Or.inr ⟨b, s', rfl, ran⟩
      · rintro (same | ⟨_, _, same, ran⟩)
        · cases same
        · cases same
          exact ran
    | error e' =>
      constructor
      · intro ran
        cases ran
        exact Or.inl rfl
      · rintro (same | ⟨_, _, same, _⟩)
        · cases same
          rfl
        · cases same

theorem runFrom_lift_iff {x r : Except (Error α) β} {s s' : σ} :
    (liftM x : Effect σ α β).runFrom s = (r, s') ↔ x = r ∧ s' = s := by
  rw [runFrom_lift, Prod.mk.injEq]
  exact and_congr_right fun _ => eq_comm

theorem runFrom_lift_bind_ok {x : Except (Error α) β} {f : β → Effect σ α γ} {s s' : σ} {c : γ} :
    ((liftM x : Effect σ α β) >>= f).runFrom s = (.ok c, s') ↔ ∃ b, x = .ok b ∧ (f b).runFrom s = (.ok c, s') := by
  rw [runFrom_bind_ok]
  constructor
  · rintro ⟨b, _, lifted, ran⟩
    obtain ⟨returned, rfl⟩ := runFrom_lift_iff.mp lifted
    exact ⟨b, returned, ran⟩
  · rintro ⟨b, returned, ran⟩
    exact ⟨b, s, runFrom_lift_iff.mpr ⟨returned, rfl⟩, ran⟩

theorem runFrom_within_ok {get : τ → σ} {put : σ → τ → τ} {x : Effect σ α β} {t t' : τ} {b : β} :
    (within get put x).runFrom t = (.ok b, t') ↔
      ∃ s, x.runFrom (get t) = (.ok b, s) ∧ t' = put s t := by
  rw [runFrom_within]
  cases ran : x.runFrom (get t) with
  | mk outcome s =>
    constructor
    · intro same
      cases same
      exact ⟨s, rfl, rfl⟩
    · rintro ⟨_, same, rfl⟩
      cases same
      rfl

theorem runFrom_within_error {get : τ → σ} {put : σ → τ → τ} {x : Effect σ α β} {t t' : τ} {e : Error α}
    (failed : (within get put x).runFrom t = (.error e, t')) : ∃ s, x.runFrom (get t) = (.error e, s) := by
  rw [runFrom_within, Prod.mk.injEq] at failed
  exact ⟨_, Prod.ext failed.1 rfl⟩

section

variable {P ok : β → Prop} {ok' : γ → Prop} {bad : Error α → Prop}

theorem Yields.of_returns {x : Effect σ α β} (yields : x.Yields P) {b : β} (returned : x.Returns b) : P b := by
  obtain ⟨s, s', ran⟩ := returned
  obtain ⟨b', s'', ran', holds⟩ := yields s
  rw [ran] at ran'
  cases ran'
  exact holds

theorem Yields.not_raises {x : Effect σ α β} (yields : x.Yields P) (e : Error α) : ¬ x.Raises e := by
  rintro ⟨s, s', raised⟩
  obtain ⟨b, s'', ran, _⟩ := yields s
  rw [ran] at raised
  cases raised

theorem Yields.ends {x : Effect σ α β} (yields : x.Yields P) : x.Ends P bad :=
  fun s => ⟨fun _ s' ran => yields.of_returns ⟨s, s', ran⟩, fun e s' ran => absurd ⟨s, s', ran⟩ (yields.not_raises e)⟩

theorem Ends.mono {x : Effect σ α β} {bad' : Error α → Prop} (ends : x.Ends ok bad) (weaker : ∀ b, ok b → P b)
    (milder : ∀ e, bad e → bad' e) : x.Ends P bad' :=
  fun s => ⟨fun b s' ran => weaker b ((ends s).1 b s' ran), fun e s' ran => milder e ((ends s).2 e s' ran)⟩

theorem ends_anyhow (x : Effect σ α β) : x.Ends (fun _ => True) fun _ => True :=
  fun _ => ⟨fun _ _ _ => trivial, fun _ _ _ => trivial⟩

theorem ends_pure {b : β} (holds : ok b) : (pure b : Effect σ α β).Ends ok bad := by
  intro s
  refine ⟨fun b' s' ran => ?_, fun e s' ran => ?_⟩
  · rw [runFrom_pure] at ran
    cases ran
    exact holds
  · rw [runFrom_pure] at ran
    cases ran

theorem ends_lift {x : Except (Error α) β} (holds : ∀ b, x = .ok b → ok b) (fails : ∀ e, x = .error e → bad e) :
    (liftM x : Effect σ α β).Ends ok bad :=
  fun _ => ⟨fun b _ ran => holds b (runFrom_lift_iff.mp ran).1, fun e _ ran => fails e (runFrom_lift_iff.mp ran).1⟩

theorem ends_get : (get : Effect σ α σ).Ends (fun _ => True) bad := by
  refine fun s => ⟨fun _ _ _ => trivial, fun e s' ran => ?_⟩
  rw [runFrom_get] at ran
  cases ran

theorem ends_modify (f : σ → σ) : (modify f : Effect σ α PUnit).Ends (fun _ => True) bad := by
  refine fun s => ⟨fun _ _ _ => trivial, fun e s' ran => ?_⟩
  rw [runFrom_modify] at ran
  cases ran

theorem ends_bind {x : Effect σ α β} {f : β → Effect σ α γ} (first : x.Ends ok bad)
    (rest : ∀ b, ok b → (f b).Ends ok' bad) : (x >>= f).Ends ok' bad := by
  intro s
  refine ⟨fun c s'' ran => ?_, fun e s'' ran => ?_⟩
  · obtain ⟨b, s', ranX, ranF⟩ := runFrom_bind_ok.mp ran
    exact (rest b ((first s).1 b s' ranX) s').1 c s'' ranF
  · rcases runFrom_bind_error.mp ran with failed | ⟨b, s', ranX, ranF⟩
    · exact (first s).2 e s'' failed
    · exact (rest b ((first s).1 b s' ranX) s').2 e s'' ranF

theorem ends_within {get : τ → σ} {put : σ → τ → τ} {x : Effect σ α β} (ends : x.Ends ok bad) :
    (within get put x).Ends ok bad := by
  intro t
  refine ⟨fun b t' ran => ?_, fun e t' ran => ?_⟩
  · obtain ⟨_, returned, _⟩ := runFrom_within_ok.mp ran
    exact (ends (get t)).1 b _ returned
  · obtain ⟨_, failed⟩ := runFrom_within_error ran
    exact (ends (get t)).2 e _ failed

end

/-- A computation fails on a list only if it fails on an element. -/
theorem forEach_error {x : Effect (σ × ω) α Unit} {l l' : List σ} {w w' : ω} {e : Error α}
    (ran : (forEach x).runFrom (l, w) = (.error e, l', w')) :
    ∃ a ∈ l, ∃ v a' v', x.runFrom (a, v) = (.error e, a', v') := by
  induction l generalizing w l' with
  | nil =>
    rw [runFrom_forEach_nil] at ran
    cases ran
  | cons a rest ih =>
    rw [runFrom_forEach_cons] at ran
    cases first : x.runFrom (a, w) with
    | mk outcome after =>
      obtain ⟨a', v⟩ := after
      cases outcome with
      | error e' =>
        rw [first] at ran
        cases ran
        exact ⟨a, List.mem_cons_self, w, _, _, first⟩
      | ok u =>
        rw [first] at ran
        cases others : (forEach x).runFrom (rest, v) with
        | mk outcome after =>
          obtain ⟨rest', v'⟩ := after
          simp only [others] at ran
          cases ran
          obtain ⟨b, mem, failed⟩ := ih others
          exact ⟨b, List.mem_cons_of_mem a mem, failed⟩

/-- A computation succeeds on a list exactly if it does on its head, and then on its tail. -/
theorem forEach_cons_ok {x : Effect (σ × ω) α Unit} {a : σ} {l l' : List σ} {w w' : ω} :
    (forEach x).runFrom (a :: l, w) = (.ok (), l', w') ↔ ∃ a' v l₁, x.runFrom (a, w) = (.ok (), a', v) ∧
      (forEach x).runFrom (l, v) = (.ok (), l₁, w') ∧ l' = a' :: l₁ := by
  rw [runFrom_forEach_cons]
  constructor
  · intro ran
    rcases first : x.runFrom (a, w) with ⟨e | ⟨⟩, a', v⟩
    · rw [first] at ran
      cases ran
    · rw [first] at ran
      rcases others : (forEach x).runFrom (l, v) with ⟨outcome, l₁, v'⟩
      simp only [others] at ran
      cases ran
      exact ⟨a', v, l₁, rfl, others, rfl⟩
  · rintro ⟨a', v, l₁, first, others, rfl⟩
    rw [first]
    dsimp only
    rw [others]

/-- A computation succeeds on every element of a list if it succeeds on each in turn. -/
theorem forEach_ok {x : Effect (σ × ω) α Unit} {l l' : List σ} {w w' : ω}
    (ran : (forEach x).runFrom (l, w) = (.ok (), l', w')) :
    List.Forall₂ (fun a a' => ∃ v v', x.runFrom (a, v) = (.ok (), a', v')) l l' := by
  induction l generalizing w l' with
  | nil =>
    rw [runFrom_forEach_nil] at ran
    cases ran
    exact .nil
  | cons a rest ih =>
    obtain ⟨a', v, rest', first, others, rfl⟩ := forEach_cons_ok.mp ran
    exact .cons ⟨w, v, first⟩ (ih others)

/-- A computation succeeds on all elements of a list if it does on those before the last one, and then on that. -/
theorem forEach_concat_ok {x : Effect (σ × ω) α Unit} {l l' : List σ} {a : σ} {w w' : ω}
    (ran : (forEach x).runFrom (l ++ [a], w) = (.ok (), l', w')) :
    ∃ l₁ v a', (forEach x).runFrom (l, w) = (.ok (), l₁, v) ∧ x.runFrom (a, v) = (.ok (), a', w') ∧
      l' = l₁ ++ [a'] := by
  induction l generalizing w l' with
  | nil =>
    obtain ⟨a', v, _, first, others, rfl⟩ := forEach_cons_ok.mp ran
    cases others
    exact ⟨[], w, a', rfl, first, rfl⟩
  | cons b rest ih =>
    obtain ⟨b', v, _, first, others, rfl⟩ := forEach_cons_ok.mp ran
    obtain ⟨l₁, u, a', before, last, rfl⟩ := ih others
    exact ⟨b' :: l₁, u, a', forEach_cons_ok.mpr ⟨b', v, l₁, first, before, rfl⟩, last, rfl⟩

theorem forEach_concat {x : Effect (σ × ω) α Unit} {l l' : List σ} {a a' : σ} {w v w' : ω}
    (before : (forEach x).runFrom (l, w) = (.ok (), l', v)) (last : x.runFrom (a, v) = (.ok (), a', w')) :
    (forEach x).runFrom (l ++ [a], w) = (.ok (), l' ++ [a'], w') := by
  induction l generalizing w l' with
  | nil =>
    cases before
    exact forEach_cons_ok.mpr ⟨a', w', [], last, rfl, rfl⟩
  | cons b rest ih =>
    obtain ⟨b', u, rest', first, others, rfl⟩ := forEach_cons_ok.mp before
    exact forEach_cons_ok.mpr ⟨b', u, rest' ++ [a'], first, ih others, rfl⟩

/-- A computation succeeds on a list if it succeeds on every element, whatever comes before. -/
theorem forEach_of_each {P : τ → σ → Prop} {x : Effect (σ × ω) α Unit} {l : List τ} {l₀ : List σ}
    (each : List.Forall₂ (fun a a₀ => ∀ v, ∃ a₀' v', x.runFrom (a₀, v) = (.ok (), a₀', v') ∧ P a a₀') l l₀) (w : ω) :
    ∃ l₀' w', (forEach x).runFrom (l₀, w) = (.ok (), l₀', w') ∧ List.Forall₂ P l l₀' := by
  induction each generalizing w with
  | nil => exact ⟨[], w, rfl, .nil⟩
  | cons first _ ih =>
    obtain ⟨a₀', v, ran, related⟩ := first w
    obtain ⟨rest', w', others, all⟩ := ih v
    exact ⟨a₀' :: rest', w', forEach_cons_ok.mpr ⟨a₀', v, rest', ran, others, rfl⟩, .cons related all⟩

/-- The success of a computation carries over between states that belong together. -/
def Carries (R : σ → σ → Prop) (x : Effect σ α β) : Prop :=
  ∀ s s' b t, R s s' → x.runFrom s = (.ok b, t) → ∃ t', x.runFrom s' = (.ok b, t') ∧ R t t'

section

variable {R : σ → σ → Prop}

theorem carries_pure (b : β) : (pure b : Effect σ α β).Carries R := by
  intro s s' b' t together ran
  cases ran
  exact ⟨s', rfl, together⟩

theorem carries_lift (x : Except (Error α) β) : (liftM x : Effect σ α β).Carries R := by
  intro s s' b t together ran
  obtain ⟨known, rfl⟩ := runFrom_lift_iff.mp ran
  exact ⟨s', runFrom_lift_iff.mpr ⟨known, rfl⟩, together⟩

theorem carries_bind {x : Effect σ α β} {f : β → Effect σ α γ} (first : x.Carries R) (rest : ∀ b, (f b).Carries R) :
    (x >>= f).Carries R := by
  intro s s' c u together ran
  obtain ⟨b, t, ranX, ranF⟩ := runFrom_bind_ok.mp ran
  obtain ⟨t', ranX', together⟩ := first s s' b t together ranX
  obtain ⟨u', ranF', together⟩ := rest b t t' c u together ranF
  exact ⟨u', runFrom_bind_ok.mpr ⟨b, t', ranX', ranF'⟩, together⟩

end

end Effect

end Trajectory
