import Mathlib.Tactic
import Trajectory.Proofs.Ledger
import Trajectory.Proofs.Output
import Trajectory.Proofs.Timer

/-!
The events of a run are genuine.

`Occurrence.Genuine` says what a handler can rely on when it is told of an event: along the dense
output of the step that was scanned its switching function changes its sign between two points not
behind the event, the second of which is an exact root or closer to the first than the tolerance, and
the state it is told is that of the dense output at the event. A switching function that depends on
time and state alone makes every reported root genuine (`Occurrence.Reported.genuine`).

`cites_move` connects a question with the scan that has located its event, and `Moves.pends` with
the piece that is accepted behind it.
-/

namespace Trajectory

open Session

variable {ω : Type} {forward : Bool}

/-- A handler whose switching function returns the same value whenever it returns one at a time with a
state. -/
def Handler.IsPure (handler : Handler ω Rat) : Prop :=
  ∀ t y value value', (handler.g t y).Returns value → (handler.g t y).Returns value' → value' = value

theorem SwitchingFunction.isPure_toHandler {s : SwitchingFunction ω Rat} {f : Rat → State Rat → Rat}
    (computes : ∀ t y, s.g t y = pure (f t y)) : s.toHandler.IsPure := by
  intro t y value value' first second
  have same : s.toHandler.g t y = pure (f t y) := computes t y
  rw [same] at first second
  rw [Effect.eq_of_returns_pure first, Effect.eq_of_returns_pure second]

section

variable [Spacing Rat]

/-- A switching function returns a value at a time of the dense output of a step. -/
def Handler.Along (handler : Handler ω Rat) (step : Step Rat) (t value : Rat) : Prop :=
  ∃ y, (Window.ofStep step).stateAt t = .ok y ∧ (handler.g t y).Returns value

/-- An event of a handler in a window of a step, with the state that the handler is told. -/
structure Occurrence.Genuine (forward : Bool) (watch : Handler ω Rat × Settings Rat) (window : Window Rat)
    (y : State Rat) (o : Occurrence Rat) : Prop where
  /-- The switching function is not zero at a point of the window, and its sign there tells the
  direction; at a later point that is not behind the event it is zero, or of the other sign and closer
  than the tolerance. -/
  signs : ∃ x r gx gr, NotAfter forward window.start x ∧ Precedes forward x r ∧ NotAfter forward r o.t ∧
    watch.1.Along window.step x gx ∧ watch.1.Along window.step r gr ∧ gx ≠ 0 ∧ (o.increasing = true ↔ gx < 0) ∧
    (gr = 0 ∨ gr * gx < 0 ∧ |r - x| < watch.2.convergence + relativeTolerance * max |r| |x|)
  /-- The state is that of the dense output at the event. -/
  state : (Window.ofStep window.step).stateAt o.t = .ok y
  /-- A handler that watches for one direction hears of no other. -/
  wanted : watch.1.direction ≠ 0 → (o.increasing = true ↔ 0 < watch.1.direction)

theorem Handler.IsPure.along {handler : Handler ω Rat} (settled : handler.IsPure) {step : Step Rat}
    {t value value' : Rat} (first : handler.Along step t value) (second : handler.Along step t value') :
    value' = value := by
  obtain ⟨y, state, returned⟩ := first
  obtain ⟨y', state', returned'⟩ := second
  rw [state] at state'
  cases state'
  exact settled t y value value' returned returned'

theorem Channel.along_ok {c : Channel ω Rat} {window : Window Rat} {t value : Rat}
    (returned : (c.along window t).Returns value) :
    ∃ y, window.stateAt t = .ok y ∧ (c.handler.g t y).Returns value := by
  obtain ⟨w, w', ran⟩ := returned
  rw [along, Effect.runFrom_bind_ok] at ran
  obtain ⟨y, w₁, state, evaluated⟩ := ran
  exact ⟨y, (Effect.runFrom_lift_iff.mp state).1, Effect.returns_of_runFrom evaluated⟩

section

variable {course : Course ω Rat} {watches : List (Handler ω Rat × Settings Rat)} {watch : Handler ω Rat × Settings Rat}
  {leg : Leg Rat} {window : Window Rat} {c : Channel ω Rat} {t0 x value : Rat}

/-- What a channel has seen at a point of a window, its switching function returns along the dense
output of the step. -/
theorem Channel.Keeps.along_seen (gaps : ∀ x : Rat, 0 ≤ Spacing.ulp x)
    (keeps : c.Keeps window.start window.yStart watch) (shown : leg.Shows forward window) {s g : Rat}
    (start : NotAfter forward window.start s → NotAfter forward s window.stop → watch.1.Along leg.step s g)
    (begun : NotAfter forward window.start x) (reached : NotAfter forward x window.stop)
    (seen : Channel.Seen (c.along window) s g x value) : watch.1.Along leg.step x value := by
  rcases seen with ⟨rfl, rfl⟩ | returned
  · exact start begun reached
  · obtain ⟨y, state, evaluated⟩ := Channel.along_ok returned
    rw [keeps.handler] at evaluated
    exact ⟨y, shown.stateAt gaps begun reached state, evaluated⟩

/-- What shows a root that the search of a handler has reported: a point not behind it where the switching function is
not zero and its sign tells the direction, and the value at the root, which is zero, or of the other sign and close to
that point. -/
theorem Occurrence.Reported.along {o : Occurrence Rat} {t : Rat} (gaps : ∀ x : Rat, 0 ≤ Spacing.ulp x)
    (directed : course.Directed watches t0) (reported : o.Reported watches course.forward window t)
    (shown : leg.Shows course.forward window) (registered : watches[o.index]? = some watch) :
    (∃ x gx gr, NotAfter course.forward window.start x ∧ NotAfter course.forward x o.root ∧
      watch.1.Along leg.step x gx ∧ watch.1.Along leg.step o.root gr ∧ gx ≠ 0 ∧ (o.increasing = true ↔ gx < 0) ∧
      (gr = 0 ∨ (0 < gr ↔ gx < 0) ∧
        |o.root - x| < watch.2.convergence + relativeTolerance * max |o.root| |x|)) ∧
      (watch.1.direction ≠ 0 → (o.increasing = true ↔ 0 < watch.1.direction)) := by
  obtain ⟨watch', c, at_, keeps, searched⟩ := reported.searched
  rw [registered] at at_
  cases at_
  have valid : c.settings.valid = true := keeps.settings ▸ directed.valid watch (List.mem_of_getElem? registered)
  obtain ⟨_, _, searched⟩ := searched
  obtain ⟨accepted, tb, gb, inner, sample, spans⟩ := Channel.firstRoot_some valid searched
  obtain ⟨x, gx, begun, before, seenStart, nonzero, increasing, gr, seenRoot, side⟩ := spans.signs
  rw [keeps.tRef] at begun
  have reached : NotAfter course.forward o.root window.stop := spans.reached.trans inner
  have atReference : watch.1.Along leg.step c.tRef c.gRef :=
    ⟨window.yStart, keeps.tRef ▸ shown.yStart, keeps.tRef ▸ keeps.gRef⟩
  have atSample : NotAfter course.forward window.start tb → NotAfter course.forward tb window.stop →
      watch.1.Along leg.step tb gb := by
    intro begunB reachedB
    obtain ⟨yb, stateB, evaluated⟩ := Channel.along_ok sample
    rw [keeps.handler] at evaluated
    exact ⟨yb, shown.stateAt gaps begunB reachedB stateB, evaluated⟩
  have atStart := keeps.along_seen gaps shown (fun _ _ => atReference) begun (before.trans reached) seenStart
  have atRoot := keeps.along_seen gaps shown atSample (begun.trans before) reached seenRoot
  rw [keeps.settings] at side
  refine ⟨⟨x, gx, gr, begun, before, atStart, atRoot, nonzero, ?_, side⟩, fun chosen => ?_⟩
  · exact (Bool.eq_iff_iff.mp increasing).trans decide_eq_true_iff
  · rw [← keeps.handler] at chosen ⊢
    exact Channel.wants_iff accepted chosen

/-- A root that the search of a pure handler has reported is genuine. -/
theorem Occurrence.Reported.genuine {o : Occurrence Rat} {t : Rat} {y : State Rat} (gaps : ∀ x : Rat, 0 ≤ Spacing.ulp x)
    (directed : course.Directed watches t0) (reported : o.Reported watches course.forward window t)
    (shown : leg.Shows course.forward window) (registered : watches[o.index]? = some watch) (settled : watch.1.IsPure)
    (state : (Window.ofStep leg.step).stateAt o.t = .ok y) : o.Genuine course.forward watch window y := by
  obtain ⟨⟨x, gx, gr, begun, before, atStart, atRoot, nonzero, increasing, side⟩, wanted⟩ :=
    reported.along gaps directed shown registered
  have apart : x ≠ o.root := by
    intro same
    subst same
    have equal : gr = gx := settled.along atStart atRoot
    subst equal
    rcases side with zero | ⟨opposite, _⟩
    · exact nonzero zero
    · rcases lt_or_gt_of_ne nonzero with neg | pos
      · exact neg.not_gt (opposite.mpr neg)
      · exact pos.not_gt (opposite.mp pos)
  have step := shown.part.step
  refine ⟨⟨x, o.root, gx, gr, begun, before.precedes_of_ne apart, reported.time ▸ reported.reached, step ▸ atStart,
    step ▸ atRoot, nonzero, increasing, ?_⟩, step ▸ state, wanted⟩
  by_cases zero : gr = 0
  · exact Or.inl zero
  · obtain ⟨opposite, near⟩ := side.resolve_left zero
    exact Or.inr ⟨mul_neg_of_opposite nonzero zero opposite, near⟩

end

end

/-- The piece of a cut is still to be accepted at a stage. -/
def Stage.Pends (cut : Cut) : Stage ω → Prop
  | asking c _ _ => c = cut
  | awaiting c _ _ _ _ => c = cut
  | decided c _ _ => c = cut
  | _ => False

/-- The latest scan with an event is that of the window of a stage, and the members of its group are
the ones that are asked. -/
def Stage.Cites (j : Journal Rat) : Stage ω → Prop
  | located _ window first rest => j.groups.getLast? = some (window, first :: rest)
  | asking cut rest _ => ∃ group, j.groups.getLast? = some (cut.window, group) ∧ ∀ o ∈ rest, o ∈ group
  | awaiting cut _ _ rest _ => ∃ group, j.groups.getLast? = some (cut.window, group) ∧ ∀ o ∈ rest, o ∈ group
  | _ => True

theorem Journal.groups_append (j j' : Journal Rat) : groups (j ++ j') = j.groups ++ groups j' :=
  List.filterMap_append

theorem Journal.groups_silent {e : Entry Rat} (silent : e.group? = none) (j : Journal Rat) :
    groups (j ++ [e]) = j.groups := by
  have ungrouped : groups [e] = [] := by rw [groups, List.filterMap_cons, silent, List.filterMap_nil]
  rw [groups_append, ungrouped, List.append_nil]

section

variable [Spacing Rat] {course : Course ω Rat} {watches : List (Handler ω Rat × Settings Rat)} {t0 : Rat}
  {s s' : Session ω Rat} {p q : Stage ω} {cut : Cut}

theorem cites_move (move : Move course (p, s) (q, s')) (cites : p.Cites s.journal) : q.Cites s'.journal := by
  cases move with
  | locate scanned =>
    rw [journal_noted, Stage.Cites, Journal.groups_append]
    exact List.getLast?_concat
  | cut truncated => exact ⟨_, cites, fun _ mem => mem⟩
  | ask watched =>
    obtain ⟨group, last, members⟩ := cites
    rw [journal_noted, Stage.Cites, Journal.groups_silent rfl]
    exact ⟨group, last, fun o mem => members o (List.mem_cons_of_mem _ mem)⟩
  | @answer cut o handler rest verdict action _ _ _ answered acknowledged =>
    obtain ⟨group, last, members⟩ := cites
    rw [journal_answered answered acknowledged]
    have kept : (s.journal ++ [Entry.answered o.index action]).groups.getLast? = some (cut.window, group) := by
      rw [Journal.groups_silent rfl]
      exact last
    cases action with
    | carryOn | resetDerivatives => exact ⟨group, kept, members⟩
    | resetState | stop => exact ⟨group, kept, fun _ mem => absurd mem List.not_mem_nil⟩
  | @refresh t y atEnd _ _ committed => cases atEnd <;> trivial
  | resume committed resumed => cases resumed <;> trivial
  | _ => trivial

private theorem pends_move (move : Move course (p, s) (q, s')) (pends : p.Pends cut) :
    ∃ more, s'.journal = s.journal ++ more ∧
      (q.Pends cut ∧ Journal.pieces more = [] ∨ ∃ last, Journal.pieces more = [(cut.piece, last)]) := by
  cases move with
  | ask watched => exact ⟨_, journal_noted s _, Or.inl ⟨pends, rfl⟩⟩
  | @answer cut o handler rest verdict action _ _ _ answered acknowledged =>
    refine ⟨_, journal_answered answered acknowledged, Or.inl ⟨?_, rfl⟩⟩
    cases action with
    | carryOn | resetDerivatives | resetState | stop => exact pends
  | decide => exact ⟨[], (List.append_nil _).symm, Or.inl ⟨pends, rfl⟩⟩
  | @accept c last verdict _ affordable =>
    obtain rfl : c = cut := pends
    exact ⟨_, journal_counted s _ _, Or.inr ⟨last, rfl⟩⟩
  | _ => exact pends.elim

/-- The piece up to an event is the first one that is accepted once its handler has been asked. -/
theorem Moves.pends (path : Moves course (p, s) (q, s')) (pends : p.Pends cut) :
    ∃ later, s'.journal = s.journal ++ later ∧
      (q.Pends cut ∧ Journal.pieces later = [] ∨ ∃ last, (Journal.pieces later).head? = some (cut.piece, last)) := by
  refine path.preserve (P := fun q u => ∃ later, u.journal = s.journal ++ later ∧
    (q.Pends cut ∧ Journal.pieces later = [] ∨ ∃ last, (Journal.pieces later).head? = some (cut.piece, last)))
    ⟨[], (List.append_nil _).symm, Or.inl ⟨pends, rfl⟩⟩ ?_
  intro p s₁ q s₂ ⟨later, journal, state⟩ move
  rcases state with ⟨pending, unaccepted⟩ | ⟨last, accepted⟩
  · obtain ⟨more, grown, state⟩ := pends_move move pending
    refine ⟨later ++ more, by rw [grown, journal, List.append_assoc], ?_⟩
    rw [Journal.pieces_append, unaccepted, List.nil_append]
    exact state.imp_right fun ⟨last, only⟩ => ⟨last, by rw [only]; rfl⟩
  · have longer : ∃ more, s₂.journal = s₁.journal ++ more := by
      rcases move.journal with same | ⟨e, grown, _⟩
      · exact ⟨[], same.trans (List.append_nil _).symm⟩
      · exact ⟨[e], grown⟩
    obtain ⟨more, grown⟩ := longer
    refine ⟨later ++ more, by rw [grown, journal, List.append_assoc], Or.inr ⟨last, ?_⟩⟩
    rw [Journal.pieces_append, List.head?_append, accepted]
    rfl

/-- A run is refused, or every event that a handler is told of in it is genuine: it belongs to the
group that the latest scan has located, its handler is a registered one, and if the switching function
of this handler is pure, the event is genuine in the scanned window. If a piece is accepted
afterwards, the first one ends at the event with the state that the handler was told. -/
theorem Engine.integrate_genuine (gaps : ∀ x : Rat, 0 ≤ Spacing.ulp x) {e e' : Engine ω Rat} (usable : e.Usable)
    {equation : Equation ω Rat} {target : Rat} {y0 y : State Rat} {r : Except (Error Rat) (Rat × State Rat)} {w w' : ω}
    (ran : (Engine.integrate equation t0 y0 target).runFrom (e, w) = (r, e', w')) {before after : Journal Rat}
    {o : Occurrence Rat} (told : e'.journal = before ++ .asked o y :: after) :
    (∃ error, e.prepare equation t0 y0 target = .error error ∧ r = .error error) ∨
      ∃ watch window group, e.watches[o.index]? = some watch ∧ before.groups.getLast? = some (window, group) ∧
        o ∈ group ∧ (watch.1.IsPure → o.Genuine (decide (t0 < target)) watch window y) ∧
        ∀ accepted ∈ after.pieces.head?, accepted.1.stop = o.t ∧ accepted.1.yStop = y := by
  rcases integrate_run ran with ⟨refused, _⟩ | ⟨course, session, prepared, ran, journal, _⟩
  · exact Or.inl refused
  right
  obtain ⟨directed, _, _, _, _, forward_eq⟩ := prepare_ok usable prepared
  obtain ⟨_, v, path, same, _⟩ := run_path ran
  have entries : v.journal = before ++ .asked o y :: after := by rw [← same.journal, ← journal, told]
  obtain ⟨p₁, s₁, p₂, s₂, earlier, short, writes, move, long, later⟩ := path.split rfl entries
  obtain ⟨route, shown⟩ := shows_moves gaps directed earlier rfl
  have cites : p₁.Cites s₁.journal :=
    earlier.preserve (P := fun q u => q.Cites u.journal) trivial fun _ _ _ _ cites move => cites_move move cites
  cases writes with
  | @asked cut o rest verdict =>
    cases move with
    | ask watched =>
      obtain ⟨group, last, members⟩ := cites
      obtain ⟨_, _, kept, reported⟩ := route
      have own := reported o List.mem_cons_self
      obtain ⟨watch, _, registered, _⟩ := own.searched
      have state : (Window.ofStep cut.leg.step).stateAt o.t = .ok cut.piece.yStop := by
        rw [own.time]
        exact shown.piece.part.yStop
      refine ⟨watch, cut.window, group, registered, short ▸ last, members o List.mem_cons_self, fun settled => ?_, ?_⟩
      · rw [← forward_eq]
        exact own.genuine gaps directed shown.window registered settled state
      · obtain ⟨more, grown, accepted⟩ := later.pends (show Stage.Pends cut _ from rfl)
        rw [entries, long, List.append_assoc] at grown
        have rest : after = more := (List.cons.inj (List.append_cancel_left grown)).2
        subst rest
        intro pair mem
        rcases accepted with ⟨_, unaccepted⟩ | ⟨flag, head⟩
        · rw [unaccepted] at mem
          cases mem
        · rw [head] at mem
          cases mem
          exact ⟨own.time.symm, rfl⟩

end

/-- The event of a dip is genuine, though its root is not found exactly. -/
theorem Engine.dip_genuine :
    letI := Spacing.gapless
    let watch := ((SwitchingFunction.dip (1 / 3) 2).toHandler, (⟨none, 1 / 100, 100, none⟩ : Settings Rat))
    let run := (Engine.integrate .steady 0 (.ofList [0]) 1).runFrom (Engine.timed 1 [(.dip (1 / 3) 2, watch.2)], ())
    ∃ o y window, .asked o y ∈ run.2.1.journal ∧ (o.t - 1 / 3) * (o.t - 2) < 0 ∧ o.Genuine true watch window y := by
  let := Spacing.gapless
  intro watch run
  have usable : (Engine.timed 1 [(.dip (1 / 3) 2, watch.2)]).Usable :=
    usable_timed (by decide +kernel) (by decide +kernel)
  have returned : run.1.isOk = true := by decide +kernel
  have asked : ∃ n ∈ run.2.1.journal.notifications, (n.1.t - 1 / 3) * (n.1.t - 2) < 0 ∧ n.1.index = 0 := by
    decide +kernel
  obtain ⟨⟨o, y⟩, mem, passed, first⟩ := asked
  obtain ⟨e, entry, same⟩ := List.mem_filterMap.mp mem
  cases e with
  | asked =>
    cases same
    obtain ⟨before, after, told⟩ := List.append_of_mem entry
    rcases Engine.integrate_genuine (fun _ => le_rfl) usable (Prod.ext rfl rfl) told with
      ⟨_, _, failed⟩ | ⟨watch', window, _, registered, _, _, genuine, _⟩
    · have refused : run.1 = .error _ := failed
      rw [refused] at returned
      cases returned
    · rw [first] at registered
      cases registered
      exact ⟨o, y, window, entry, passed, genuine (SwitchingFunction.isPure_toHandler fun _ _ => rfl)⟩
  | _ => cases same

end Trajectory
