import Mathlib.Tactic
import Trajectory.Proofs.History

/-!
What a solution and a history say of the end of a run.

A sampler of the two ends of a span can hear of every run from one end towards the other
(`Engine.attends_ends`), so that a history of the two ends carries out the run of the solution. The
solution is the point to which the run has led, while the last row of the history is the end of the last
piece (`InitialValue.history_final`). At the target these are the same, unless a handler has replaced the
state there (`InitialValue.history_replaced`).
-/

namespace Trajectory

open Effect

variable {ω : Type} {a t target : Rat}

namespace Sampler

/-- A sampler of the two ends of a span starts a run with the initial state, and waits for the other end. -/
theorem start_ends {t0 : Rat} (y0 : State Rat) (apart : t0 ≠ target) :
    ((create [t0, target]).start t0 y0 target).rows = [(t0, y0)] ∧
      ((create [t0, target]).start t0 y0 target).pending = [target] := by
  have other : (target == t0) = false := beq_eq_false_iff_ne.mpr apart.symm
  simp [rows, start, create, other]

variable [Spacing Rat] {s : Sampler Rat} {piece : Window Rat} {flag : Bool}

/-- A sampler that waits for the end of a piece takes the state there. -/
theorem accept_stop (gaps : ∀ x : Rat, 0 ≤ Spacing.ulp x) (ahead : Precedes s.forward piece.start piece.stop)
    (waits : s.pending = [piece.stop]) :
    s.accept piece = (.ok (), { s with pending := [], latestRows := (piece.stop, piece.yStop) :: s.latestRows }) := by
  have arrives : reached s.forward piece.stop piece.stop = true := reached_iff.mpr .refl
  rw [accept, waits, take, if_pos arrives, Window.stateAt_stop_ok gaps ahead]
  rfl

/-- A sampler that waits for a time behind a piece takes nothing from it. -/
theorem accept_before (waits : s.pending = [target]) (before : Precedes s.forward piece.stop target) :
    s.accept piece = (.ok (), s) := by
  have ahead : Ahead s.forward piece.stop s.pending := by
    rw [waits]
    exact .of_head (List.pairwise_singleton _ _) before
  rw [accept, take_ahead ahead]

theorem runFrom_accept_of {s' : Sampler Rat} (heard : s.accept piece = (.ok (), s')) (flag : Bool) (w : ω) :
    (Observer.accept piece flag).runFrom (.sampler s, w) = (.ok (), .sampler s', w) := by
  rw [Observer.runFrom_accept_sampler, heard]

/-- A sampler that waits for one time can hear of the pieces of a run that does not go beyond it. If the run gets
there, it takes the state at the end of the last piece. -/
theorem hears_until (gaps : ∀ x : Rat, 0 ≤ Spacing.ulp x) {earlier : List (Window Rat × Bool)}
    (following : Following s.forward a (earlier ++ [(piece, flag)])) (inside : NotAfter s.forward piece.stop target)
    (waits : s.pending = [target]) (w : ω) : ∃ s' : Sampler Rat,
      Observer.Hears (ω := ω) (earlier ++ [(piece, flag)]) (.sampler s) (.sampler s') ∧
        s'.rows = s.rows ++ if piece.stop = target then [(target, piece.yStop)] else [] := by
  induction earlier generalizing a with
  | nil =>
    obtain ⟨_, ahead, _⟩ := following
    by_cases there : piece.stop = target
    · subst there
      have heard := accept_stop gaps ahead waits
      refine ⟨(s.accept piece).2, .next (runFrom_accept_of (by rw [heard]) flag w) (.none _), ?_⟩
      rw [if_pos rfl, heard, rows, rows, List.reverse_cons]
    · have heard := accept_before waits (inside.precedes_of_ne there)
      refine ⟨s, .next (runFrom_accept_of heard flag w) (.none _), ?_⟩
      rw [if_neg there, List.append_nil]
  | cons p earlier ih =>
    obtain ⟨_, _, following⟩ := following
    have heard := accept_before waits (following.leads.trans_notAfter inside)
    obtain ⟨s', hears, taken⟩ := ih following
    exact ⟨s', .next (runFrom_accept_of heard p.2 w) hears, taken⟩

end Sampler

variable [Spacing Rat]

/-- A sampler of the two ends of a span can hear of every run that returns. Besides the initial state it takes the one
at the end of the last piece, if that is at the target. -/
theorem Engine.attends_ends (gaps : ∀ x : Rat, 0 ≤ Spacing.ulp x) {e e' : Engine ω Rat} (usable : e.Usable)
    {equation : Equation ω Rat} {t0 : Rat} {y0 y : State Rat} {w w' : ω}
    (ran : (integrate equation t0 y0 target).runFrom (e, w) = (.ok (t, y), e', w')) :
    ∃ link s', e'.journal.chain.links.getLast? = some link ∧ t = link.piece.stop ∧ link.Yields e.watches y ∧
      Observer.Attends t0 y0 target e'.journal.pieces (.sampler (.create [t0, target]) : Observer ω Rat)
        (.sampler s') ∧
      s'.rows = (t0, y0) :: if t = target then [(target, link.piece.yStop)] else [] := by
  obtain ⟨unbroken, link, last, rfl, yields⟩ := integrate_links usable ran
  obtain ⟨earlier, flag, pieces⟩ := pieces_of_links last
  have following := unbroken.following
  rw [pieces] at following ⊢
  have inside := (unbroken.inside link (List.mem_of_getLast? last)).2
  have apart : t0 ≠ target := (following.leads.trans_notAfter inside).ne
  obtain ⟨begun, waits⟩ := Sampler.start_ends y0 apart
  obtain ⟨s', hears, rows⟩ := Sampler.hears_until gaps following inside waits w
  refine ⟨link, s', last, rfl, yields, ⟨_, w, w, rfl, hears⟩, ?_⟩
  rw [rows, begun]
  rfl

namespace InitialValue

variable {p : InitialValue ω Rat} {e e' : Engine ω Rat} {equation : Equation ω Rat} {y : State Rat} {w w' : ω}
  {ns ns' : List (Notice Rat)}

/-- What an engine carries out and returns on a problem is what its run returns. -/
theorem runFrom_runWith_ok (carried : (p.runWith e equation).runFrom (ns, w) = (.ok (e', t, y), ns', w')) :
    (Engine.integrate equation p.start p.y0 p.target).runFrom (e, w) = (.ok (t, y), e', w') := by
  rcases ran : (Engine.integrate equation p.start p.y0 p.target).runFrom (e, w) with ⟨outcome, e₁, w₁⟩
  obtain ⟨ns₁, left⟩ := runFrom_leave e₁.journal.stops ns w₁
  have stored : (set (ns, w₁) : Noted ω Rat PUnit).runFrom (ns, w) = (.ok ⟨⟩, ns, w₁) := rfl
  simp only [runWith, runFrom_bind, runFrom_get, ran, stored, left] at carried
  cases outcome with
  | error failure => cases carried
  | ok result =>
    cases carried
    rfl

/-- A solution returns what a run of the engine returns. -/
theorem solve_ok : (p.solve.runFrom (ns, w)).1 = .ok (t, y) ↔ ∃ equation e e' w',
    p.source.toEquation p.y0 = .ok equation ∧ p.engine = .ok e ∧
      (Engine.integrate equation p.start p.y0 p.target).runFrom (e, w) = (.ok (t, y), e', w') := by
  constructor
  · rcases solved : p.solve.runFrom (ns, w) with ⟨outcome, ns', w'⟩
    rintro rfl
    obtain ⟨equation, system, solved⟩ := runFrom_lift_bind_ok.mp solved
    obtain ⟨e, built, solved⟩ := runFrom_lift_bind_ok.mp solved
    obtain ⟨⟨e', t, y⟩, ⟨ns', w'⟩, carried, same⟩ := runFrom_bind_ok.mp solved
    cases same
    exact ⟨equation, e, e', w', system, built, runFrom_runWith_ok carried⟩
  · rintro ⟨equation, e, e', w', system, built, ran⟩
    obtain ⟨ns', carried⟩ := runFrom_runWith ran ns
    simp only [solve, runFrom_bind, runFrom_lift, system, built, carried]
    rfl

/-- A history that returns has carried out a run, to which its sampler has listened. -/
theorem history_ok {times : Option (Tensor Rat)} {verbose : Bool} {table : Table Rat}
    (told : ((p.history times verbose).runFrom (ns, w)).1 = .ok table) : ∃ rows sampler equation e e' t y w',
      p.rowTimes times = .ok rows ∧ Sampler.ofTensor rows = .ok sampler ∧
      p.source.toEquation p.y0 = .ok equation ∧ p.engine = .ok e ∧
      (Engine.integrate equation p.start p.y0 p.target).runFrom (e.addObserver (.sampler sampler), w) =
        (.ok (t, y), e', w') := by
  rcases ran : (p.history times verbose).runFrom (ns, w) with ⟨outcome, ns', w'⟩
  rw [ran] at told
  obtain rfl : outcome = .ok table := told
  obtain ⟨rows, accepted, ran⟩ := runFrom_lift_bind_ok.mp ran
  obtain ⟨equation, system, ran⟩ := runFrom_lift_bind_ok.mp ran
  obtain ⟨e, built, ran⟩ := runFrom_lift_bind_ok.mp ran
  obtain ⟨sampler, sampled, ran⟩ := runFrom_lift_bind_ok.mp ran
  have carried : ∃ ns₁ r s', (p.runWith (e.addObserver (.sampler sampler)) equation).runFrom (ns₁, w) = (.ok r, s') := by
    cases verbose with
    | false =>
      obtain ⟨r, s', carried, _⟩ := runFrom_bind_ok.mp ran
      exact ⟨ns, r, s', carried⟩
    | true =>
      -- Notices leave the state of the caller alone.
      obtain ⟨_, _, noticed, ran⟩ := runFrom_bind_ok.mp ran
      cases noticed
      obtain ⟨_, _, ran⟩ := runFrom_lift_bind_ok.mp ran
      obtain ⟨_, _, noticed, ran⟩ := runFrom_bind_ok.mp ran
      cases noticed
      obtain ⟨_, _, noticed, ran⟩ := runFrom_bind_ok.mp ran
      cases noticed
      obtain ⟨r, s', carried, _⟩ := runFrom_bind_ok.mp ran
      exact ⟨_, r, s', carried⟩
  obtain ⟨_, ⟨e', t, y⟩, ⟨_, w₁⟩, carried⟩ := carried
  exact ⟨rows, sampler, equation, e, e', t, y, w₁, accepted, sampled, system, built, runFrom_runWith_ok carried⟩

/-- A history of the two ends raises if a solution does. If a solution returns, the history is that of the same run: it
holds the initial state, and at the target, if the run has got there, the last state of the last piece. This is the
state of the solution unless a handler has replaced the state behind that piece. The two rows make a table if their
states have one shape, which they do if the right-hand side and the handlers answer for every state of the right
size. -/
theorem history_final (gaps : ∀ x : Rat, 0 ≤ Spacing.ulp x)
    (valid : ∀ watch ∈ p.handlers, ∀ settings ∈ watch.2, settings.valid = true) (verbose : Bool)
    (ns ms : List (Notice Rat)) (w : ω) :
    (∀ error, (p.solve.runFrom (ns, w)).1 = .error error →
      ∃ error', ((p.history none verbose).runFrom (ms, w)).1 = .error error') ∧
    ∀ t y, (p.solve.runFrom (ns, w)).1 = .ok (t, y) → ∃ equation e e' w' link,
      p.source.toEquation p.y0 = .ok equation ∧ p.engine = .ok e ∧
      (Engine.integrate equation p.start p.y0 p.target).runFrom (e, w) = (.ok (t, y), e', w') ∧
      e'.journal.chain.links.getLast? = some link ∧ t = link.piece.stop ∧ link.Yields e.watches y ∧
      (link.reset = none → link.piece.yStop = y) ∧
      ((p.history none verbose).runFrom (ms, w)).1 = (
        if t = p.target then
          if link.piece.yStop.shape = p.y0.shape then .ok ⟨[p.start, p.target], [p.y0, link.piece.yStop]⟩
          else .error .table
        else .ok ⟨[p.start], [p.y0]⟩) ∧
      (e.stepper.scheme ≠ .abstract → equation.Total → (∀ watch ∈ e.watches, watch.1.Total equation) →
        link.piece.yStop.shape = p.y0.shape) := by
  have quiet : ∀ sampler, (Observer.sampler sampler : Observer ω Rat).Quiet := fun _ => trivial
  constructor
  · intro error failed
    cases told : ((p.history none verbose).runFrom (ms, w)).1 with
    | error error' => exact ⟨error', rfl⟩
    | ok table =>
      -- The run of the history would have returned without its sampler, too.
      obtain ⟨_, sampler, equation, e, e', t, y, w', _, _, system, built, ran⟩ := history_ok told
      obtain ⟨_, _, _, bare⟩ := Engine.integrate_addObserver (quiet sampler) ran
      rw [solve_ok.mpr ⟨equation, e, _, w', system, built, bare⟩] at failed
      cases failed
  · intro t y solved
    obtain ⟨equation, e, e', w', system, built, ran⟩ := solve_ok.mp solved
    have usable := usable_engine valid built
    obtain ⟨link, s', last, reached, yields, attends, rows⟩ := Engine.attends_ends gaps usable ran
    refine ⟨equation, e, e', w', link, system, built, ran, last, reached, yields, fun kept => ?_, ?_, ?_⟩
    · rw [Link.Yields, kept] at yields
      exact yields.symm
    · have joined := Engine.integrate_joined (quiet _) ran attends
      have accepted : p.rowTimes none = .ok (.ofList [p.start, p.target]) := rfl
      obtain ⟨ms', told⟩ := runFrom_history accepted rfl system built joined rfl verbose ms
      rw [told]
      change Table.ofRows s'.rows = _
      rw [rows]
      by_cases there : t = p.target
      · rw [if_pos there, if_pos there]
        simp [Table.ofRows]
      · rw [if_neg there, if_neg there]
        rfl
    · intro implemented total handlers
      have answering := Engine.pieces_answer gaps usable implemented total handlers ran
      obtain ⟨earlier, flag, pieces⟩ := pieces_of_links last
      obtain ⟨unbroken, _⟩ := Engine.integrate_links usable ran
      have mem : (link.piece, flag) ∈ e'.journal.pieces := pieces ▸ List.mem_append_right _ List.mem_cons_self
      have ahead := unbroken.advancing link (List.mem_of_getLast? last)
      obtain ⟨z, answered, sized⟩ := (answering _ mem).answers link.piece.stop ahead.notAfter .refl
      rw [Window.stateAt_stop_ok gaps ahead] at answered
      cases answered
      exact sized

/-- A steady run with some timers, in steps of one half. -/
def timed (timers : List (SwitchingFunction Unit Rat)) : InitialValue Unit Rat where
  source := .equation .steady
  start := 0
  target := 1
  y0 := .ofList [0]
  stepper := ⟨.euler, false⟩
  stepSize := 1 / 2
  handlers := timers.map fun timer => (timer.toHandler, some ⟨none, 1 / 100, 100, none⟩)
  maxSteps := 100

omit [Spacing Rat] in
/-- If a handler replaces the state at the target, the solution is the new state, and the last row of the history
holds the one before it. -/
theorem history_replaced :
    letI := Spacing.gapless
    let p := timed [.timer 1 .resetState (.ofList [5])]
    (p.solve.runFrom ([], ())).1 = .ok (1, .ofList [5]) ∧
      ((p.history none false).runFrom ([], ())).1 = .ok ⟨[0, 1], [.ofList [0], .ofList [1]]⟩ := by
  decide +kernel

omit [Spacing Rat] in
/-- A handler that replaces the state on the way, and one at the target that lets the run go on: both ends of the run
are those of the solution. -/
theorem history_relayed :
    letI := Spacing.gapless
    let p := timed [.timer (1 / 4) .resetState (.ofList [5]), .timer 1 .carryOn (.ofList [0])]
    (p.solve.runFrom ([], ())).1 = .ok (1, .ofList [23 / 4]) ∧
      ((p.history none false).runFrom ([], ())).1 = .ok ⟨[0, 1], [.ofList [0], .ofList [23 / 4]]⟩ := by
  let := Spacing.gapless
  intro p
  have valid : ∀ watch ∈ p.handlers, ∀ settings ∈ watch.2, settings.valid = true := by
    rintro watch (_ | ⟨_, _ | ⟨_, ⟨⟩⟩⟩)
    · rintro _ ⟨⟩
      decide +kernel
    · rintro _ ⟨⟩
      decide +kernel
  let timers : Engine Unit Rat := .timed (1 / 2)
    [(.timer (1 / 4) .resetState (.ofList [5]), ⟨none, 1 / 100, 100, none⟩),
      (.timer 1 .carryOn (.ofList [0]), ⟨none, 1 / 100, 100, none⟩)]
  have size : checkStepSize p.stepSize = .ok (1 / 2) := by simp [p, timed, checkStepSize]
  have engine : p.engine = .ok timers := by
    rw [InitialValue.engine, Engine.create, size]
    rfl
  have solved : (p.solve.runFrom ([], ())).1 = .ok (1, .ofList [23 / 4]) := by decide +kernel
  obtain ⟨equation, e, e', w', link, system, built, ran, last, _, _, same, told, _⟩ :=
    (history_final (fun _ => le_rfl) valid false [] [] ()).2 _ _ solved
  cases system
  cases engine.symm.trans built
  -- No handler replaces the state behind the last piece.
  have resets : ((Engine.integrate .steady 0 (.ofList [0]) 1).runFrom (timers, ())).2.1.journal.chain.links.getLast?.map
      Link.reset = some none := by decide +kernel
  have kept : link.reset = none := by
    have run : (Engine.integrate .steady 0 (.ofList [0]) 1).runFrom (timers, ()) = (.ok (1, .ofList [23 / 4]), e', w') :=
      ran
    rw [run] at resets
    exact Option.some.inj ((congrArg (Option.map Link.reset) last).symm.trans resets)
  have there : (1 : Rat) = p.target := rfl
  have alike : (Tensor.ofList [23 / 4] : State Rat).shape = p.y0.shape := rfl
  rw [same kept, if_pos there, if_pos alike] at told
  exact ⟨solved, told⟩

end InitialValue

end Trajectory
