import Mathlib.Data.List.Chain
import Trajectory.Proofs.Engine
import Trajectory.Proofs.Timer

/-!
The accepted pieces of a run form an unbroken trajectory.

`Unbroken` is the law: the first piece starts at the initial point, every piece leads on and lies
between the initial and the target time, and each starts at the point where the one before it ended,
or at the state that a handler has put in its place. `Stage.Trailing` says of every stage how the
law of the accepted pieces goes on from there; each of the ways in which a piece may be left
(without an event, by a stop, a reset of the state or of the derivatives, or going on in the same
step) is a case of `trailing_move`. `integrate_unbroken` is the law for whole runs, whether they
return or fail.
-/

namespace Trajectory

open Session

variable {ω : Type}

/-- An accepted piece, with the index of the handler that chose to replace the state at its end. -/
structure Link where
  /-- The piece. -/
  piece : Window Rat
  /-- The handler that replaces the state behind it. -/
  reset : Option Nat

/-- The accepted pieces of a journal in order, and a choice to replace the state whose piece is
still to come. -/
structure Chain where
  links : List Link
  chosen : Option Nat

/-- A chain with one more entry of the journal. -/
def Chain.add (c : Chain) : Entry Rat → Chain
  | .answered index .resetState => { c with chosen := some index }
  | .accepted piece _ => ⟨c.links ++ [⟨piece, c.chosen⟩], none⟩
  | _ => c

/-- The chain of the accepted pieces of a journal. -/
def Journal.chain (j : Journal Rat) : Chain := j.foldl Chain.add ⟨[], none⟩

@[simp] theorem Journal.chain_append (j : Journal Rat) (e : Entry Rat) : (j ++ [e]).chain = j.chain.add e := by
  rw [chain, List.foldl_append]
  rfl

/-- The links are the accepted pieces. -/
theorem Journal.links_piece (j : Journal Rat) : j.chain.links.map Link.piece = j.pieces.map Prod.fst := by
  induction j using List.reverseRecOn with
  | nil => rfl
  | append_singleton j e ih =>
    rw [chain_append, pieces, List.filterMap_append, List.map_append, ← pieces, ← ih]
    cases e with
    | answered index action => cases action <;> simp [Chain.add, Entry.piece?]
    | _ => simp [Chain.add, Entry.piece?]

/-- The state behind a link is the last one of the piece, or one that the choosing handler supplies
for it. -/
def Link.Yields (watches : List (Handler ω Rat × Settings Rat)) (link : Link) (y : State Rat) : Prop :=
  match link.reset with
  | none => y = link.piece.yStop
  | some index => ∃ watch, watches[index]? = some watch ∧
      (watch.1.resetState link.piece.stop link.piece.yStop).Returns y

/-- Without a reset a link yields the last state of its piece. -/
theorem Link.Yields.last (watches : List (Handler ω Rat × Settings Rat)) {piece : Window Rat} :
    Link.Yields watches ⟨piece, none⟩ piece.yStop := rfl

/-- Some links lead to a time and a state. -/
def Reaches (watches : List (Handler ω Rat × Settings Rat)) (t0 : Rat) (y0 : State Rat) (links : List Link) (t : Rat)
    (y : State Rat) : Prop :=
  match links.getLast? with
  | none => t = t0 ∧ y = y0
  | some link => t = link.piece.stop ∧ link.Yields watches y

/-- The law of the accepted pieces of a run. -/
structure Unbroken (watches : List (Handler ω Rat × Settings Rat)) (forward : Bool) (t0 : Rat) (y0 : State Rat)
    (target : Rat) (links : List Link) : Prop where
  /-- The first piece starts at the initial point. -/
  opening : ∀ link ∈ links.head?, link.piece.start = t0 ∧ link.piece.yStart = y0
  /-- Every piece starts where the one before it has led. -/
  joined : links.IsChain fun link next => next.piece.start = link.piece.stop ∧ link.Yields watches next.piece.yStart
  /-- Every piece leads on along the run. -/
  advancing : ∀ link ∈ links, Precedes forward link.piece.start link.piece.stop
  /-- Every piece lies between the initial and the target time. -/
  inside : ∀ link ∈ links, NotAfter forward t0 link.piece.start ∧ NotAfter forward link.piece.stop target

section

variable {watches : List (Handler ω Rat × Settings Rat)} {forward : Bool} {t0 target t : Rat} {y0 y : State Rat}
  {links : List Link} {link : Link}

theorem Unbroken.nil : Unbroken watches forward t0 y0 target [] :=
  ⟨fun link mem => absurd mem (Option.not_mem_none link), .nil, fun _ mem => absurd mem List.not_mem_nil,
    fun _ mem => absurd mem List.not_mem_nil⟩

/-- A piece that starts where the others have led goes on with them. -/
theorem Unbroken.concat (unbroken : Unbroken watches forward t0 y0 target links)
    (reached : Reaches watches t0 y0 links link.piece.start link.piece.yStart)
    (ahead : Precedes forward link.piece.start link.piece.stop) (begun : NotAfter forward t0 link.piece.start)
    (ended : NotAfter forward link.piece.stop target) : Unbroken watches forward t0 y0 target (links ++ [link]) := by
  refine ⟨fun first mem => ?_, ?_, fun l mem => ?_, fun l mem => ?_⟩
  · cases links with
    | nil =>
      cases mem
      exact reached
    | cons head rest => exact unbroken.opening first mem
  · refine unbroken.joined.append (.singleton link) fun last isLast next isNext => ?_
    cases isNext
    rw [Option.mem_def] at isLast
    rw [Reaches, isLast] at reached
    exact reached
  · rcases List.mem_append.mp mem with earlier | new
    · exact unbroken.advancing l earlier
    · rw [List.mem_singleton.mp new]
      exact ahead
  · rcases List.mem_append.mp mem with earlier | new
    · exact unbroken.inside l earlier
    · rw [List.mem_singleton.mp new]
      exact ⟨begun, ended⟩

/-- Behind its last link a chain leads to the end of the piece, with any state that the link
yields. -/
theorem reaches_of_getLast (last : links.getLast? = some link) (yields : link.Yields watches y) :
    Reaches watches t0 y0 links link.piece.stop y := by
  rw [Reaches, last]
  exact ⟨rfl, yields⟩

end

/-- The handler that a verdict wants to replace the state. -/
def Verdict.reset? : Verdict ω Rat → Option Nat
  | .replace index _ => some index
  | _ => none

/-- A verdict to stop is an answer in the journal. -/
def Verdict.Recorded (j : Journal Rat) (verdict : Verdict ω Rat) : Prop :=
  verdict.isStop = true → ∃ index, .answered index .stop ∈ j

/-- A piece that is to be accepted goes on with the others. -/
structure Cut.Trails (watches : List (Handler ω Rat × Settings Rat)) (t0 : Rat) (y0 : State Rat) (j : Journal Rat)
    (cut : Cut) (verdict : Verdict ω Rat) : Prop where
  reached : Reaches watches t0 y0 j.chain.links cut.window.start cut.window.yStart
  chosen : j.chain.chosen = verdict.reset?
  recorded : verdict.Recorded j

/-- An accepted piece is the last one of the chain. -/
structure Cut.Trailed (j : Journal Rat) (cut : Cut) (verdict : Verdict ω Rat) : Prop where
  last : j.chain.links.getLast? = some ⟨cut.piece, verdict.reset?⟩
  chosen : j.chain.chosen = none
  recorded : verdict.Recorded j

/-- How the accepted pieces of a journal lead to a stage. -/
def Stage.Trailing (course : Course ω Rat) (watches : List (Handler ω Rat × Settings Rat)) (t0 : Rat) (y0 : State Rat)
    (j : Journal Rat) : Stage ω → Prop
  | opening t y => t = t0 ∧ y = y0 ∧ j = []
  | stepping t y _ => Reaches watches t0 y0 j.chain.links t y ∧ j.chain.chosen = none
  | scanning _ window => Reaches watches t0 y0 j.chain.links window.start window.yStart ∧ j.chain.chosen = none
  | located _ window _ _ => Reaches watches t0 y0 j.chain.links window.start window.yStart ∧ j.chain.chosen = none
  | asking cut rest verdict => cut.Trails watches t0 y0 j verdict ∧ (rest ≠ [] → verdict.reset? = none)
  | awaiting cut _ _ _ verdict => cut.Trails watches t0 y0 j verdict ∧ verdict.reset? = none
  | decided cut _ verdict => cut.Trails watches t0 y0 j verdict
  | accepted cut _ verdict => cut.Trailed j verdict
  | told cut verdict => cut.Trailed j verdict
  | restarting t y _ => j.chain.links ≠ [] ∧ Reaches watches t0 y0 j.chain.links t y ∧ j.chain.chosen = none
  | ended t y => j.chain.links ≠ [] ∧ Reaches watches t0 y0 j.chain.links t y ∧
      (t = course.target ∨ ∃ index, .answered index .stop ∈ j)

section

variable [Spacing Rat] {course : Course ω Rat} {watches : List (Handler ω Rat × Settings Rat)} {t0 : Rat}
  {y0 : State Rat} {s s' : Session ω Rat}

omit [Spacing Rat] in
/-- Behind an accepted piece a run is where the piece or the handler that replaces the state has
led. -/
theorem Cut.Trailed.reaches {j : Journal Rat} {cut : Cut} {verdict : Verdict ω Rat} {y : State Rat}
    (trailed : cut.Trailed j verdict) (t0 : Rat) (y0 : State Rat)
    (yields : Link.Yields watches ⟨cut.piece, verdict.reset?⟩ y) :
    j.chain.links ≠ [] ∧ Reaches watches t0 y0 j.chain.links cut.piece.stop y := by
  refine ⟨fun empty => ?_, reaches_of_getLast trailed.last yields⟩
  have last := trailed.last
  rw [empty] at last
  cases last

omit [Spacing Rat] in
theorem Verdict.Recorded.append {j : Journal Rat} {verdict : Verdict ω Rat} (recorded : verdict.Recorded j)
    (j' : Journal Rat) : verdict.Recorded (j ++ j') := by
  intro stop
  obtain ⟨index, mem⟩ := recorded stop
  exact ⟨index, List.mem_append_left _ mem⟩

omit [Spacing Rat] in
theorem Cut.Trails.noted {j : Journal Rat} {cut : Cut} {verdict : Verdict ω Rat} {e : Entry Rat}
    (trails : cut.Trails watches t0 y0 j verdict) (same : Journal.chain (j ++ [e]) = j.chain) :
    cut.Trails watches t0 y0 (j ++ [e]) verdict :=
  ⟨same ▸ trails.reached, same ▸ trails.chosen, trails.recorded.append [e]⟩

omit [Spacing Rat] in
private theorem trailing_answered {j : Journal Rat} {cut : Cut} {o : Occurrence Rat} {handler : Handler ω Rat}
    {rest : List (Occurrence Rat)} {verdict : Verdict ω Rat} {action : Action}
    (before : (Stage.awaiting cut o handler rest verdict).Trailing course watches t0 y0 j) :
    (cut.answered o handler rest verdict action).Trailing course watches t0 y0 (j ++ [.answered o.index action]) := by
  obtain ⟨trails, undecided⟩ := before
  have chosen := trails.chosen.trans undecided
  have chain := j.chain_append (.answered o.index action)
  cases action with
  | carryOn => exact ⟨trails.noted chain, fun _ => undecided⟩
  | resetDerivatives =>
    exact ⟨⟨chain ▸ trails.reached, chain ▸ chosen, fun stop => by cases stop⟩, fun _ => rfl⟩
  | resetState =>
    exact ⟨⟨chain ▸ trails.reached, congrArg Chain.chosen chain, fun stop => by cases stop⟩,
      fun more => absurd rfl more⟩
  | stop =>
    refine ⟨⟨chain ▸ trails.reached, chain ▸ chosen, fun _ => ?_⟩, fun more => absurd rfl more⟩
    exact ⟨_, List.mem_append_right _ List.mem_cons_self⟩

/-- Every move goes on with the accepted pieces. -/
theorem trailing_move {p q : Stage ω} (move : Move course (p, s) (q, s'))
    (route : p.OnRoute course watches t0 s.monitor) (before : p.Trailing course watches t0 y0 s.journal) :
    q.Trailing course watches t0 y0 s'.journal := by
  cases move with
  | «open» derivative fits watched observed =>
    obtain ⟨rfl, rfl, empty⟩ := before
    have same := ((sameAccount_onTally derivative).trans (sameAccount_onMonitor watched)).trans
      (sameAccount_onObservers observed)
    rw [same.journal, empty]
    exact ⟨⟨rfl, rfl⟩, rfl⟩
  | step taken =>
    obtain ⟨_, start, y, _, _⟩ := Course.nextLeg_ok taken
    rw [(sameAccount_nextLeg taken).journal, Stage.Trailing, Window.ofStep, start, y]
    exact before
  | clear scanned =>
    rw [(sameAccount_scan scanned).journal]
    exact ⟨before.1, before.2, fun stop => by cases stop⟩
  | locate scanned =>
    rw [journal_noted, (sameAccount_scan scanned).journal, Stage.Trailing, Journal.chain_append]
    exact before
  | cut truncated => exact ⟨⟨before.1, before.2, fun stop => by cases stop⟩, fun _ => rfl⟩
  | ask watched =>
    obtain ⟨trails, undecided⟩ := before
    rw [journal_noted]
    exact ⟨trails.noted (Journal.chain_append _ _), undecided (List.cons_ne_nil _ _)⟩
  | answer answered acknowledged =>
    rw [journal_answered answered acknowledged]
    exact trailing_answered before
  | decide => exact before.1
  | accept affordable =>
    rename_i cut last verdict
    rw [journal_counted]
    refine ⟨?_, ?_, before.recorded.append _⟩
    · rw [Journal.chain_append, Chain.add, List.getLast?_concat, before.chosen]
    · rw [Journal.chain_append, Chain.add]
  | tell told =>
    rw [(sameAccount_onObservers told).journal]
    exact before
  | stop =>
    obtain ⟨begun, reached⟩ := before.reaches t0 y0 (.last watches)
    obtain ⟨index, mem⟩ := before.recorded rfl
    rw [journal_noted, Stage.Trailing, Journal.chain_append]
    exact ⟨begun, reached, Or.inr ⟨index, List.mem_append_left _ mem⟩⟩
  | replace reset fits =>
    obtain ⟨_, backed, _⟩ := route
    obtain ⟨settings, at_⟩ := backed
    obtain ⟨w, called, _⟩ := outside_ok.mp reset
    obtain ⟨begun, reached⟩ := before.reaches t0 y0
      ⟨_, at_, Effect.returns_of_runFrom called⟩
    rw [journal_noted, (sameAccount_onTally reset).journal, Stage.Trailing, Journal.chain_append]
    exact ⟨begun, reached, before.chosen⟩
  | restart =>
    obtain ⟨begun, reached⟩ := before.reaches t0 y0 (.last watches)
    exact ⟨begun, reached, before.chosen⟩
  | refresh committed =>
    rename_i t y atEnd
    obtain ⟨begun, reached, chosen⟩ := before
    rw [(sameAccount_onMonitor committed).journal]
    cases atEnd with
    | true => exact ⟨begun, reached, Or.inl route.2.1⟩
    | false => exact ⟨reached, chosen⟩
  | resume committed resumed =>
    obtain ⟨fits, _, _⟩ := route
    obtain ⟨begun, reached⟩ := before.reaches t0 y0 (.last watches)
    rw [(sameAccount_onMonitor committed).journal]
    cases resumed with
    | ended whole last =>
      exact ⟨begun, reached, Or.inl ((whole.trans fits.covers.stop).trans (fits.covers.last last))⟩
    | stepping whole more => exact ⟨reached, before.chosen⟩
    | scanning inner narrowed =>
      obtain ⟨_, start, _, yStart, _⟩ := Window.restrict_ok narrowed
      rw [Stage.Trailing, start, fits.yStop _ yStart]
      exact ⟨reached, before.chosen⟩

/-- Every move keeps the law of the accepted pieces. -/
theorem unbroken_move {p q : Stage ω} (move : Move course (p, s) (q, s'))
    (route : p.OnRoute course watches t0 s.monitor) (before : p.Trailing course watches t0 y0 s.journal)
    (unbroken : Unbroken watches course.forward t0 y0 course.target s.journal.chain.links) :
    Unbroken watches course.forward t0 y0 course.target s'.journal.chain.links := by
  rcases move.journal with same | ⟨e, grown, writes⟩
  · rwa [same]
  · rw [grown, Journal.chain_append]
    cases writes with
    | accepted =>
      obtain ⟨fits, _, _⟩ := route
      refine unbroken.concat ?_ fits.ahead ?_ (fits.reached.trans fits.covers.stop_notAfter)
      · rw [fits.start, fits.yStart]
        exact before.reached
      · rw [fits.start]
        exact fits.covers.begun
    | @answered _ _ _ _ _ action => cases action <;> exact unbroken
    | _ => exact unbroken

/-- At every stage of a run the pieces accepted so far are unbroken and lead to the stage. -/
theorem trailing_moves {course : Course ω Rat} (directed : course.Directed watches t0) {q : Stage ω}
    {u : Session ω Rat} (path : Moves course (.opening t0 y0, u) (q, s))
    (created : u.monitor.channels = (Monitor.create watches).channels) (empty : u.journal = []) :
    Unbroken watches course.forward t0 y0 course.target s.journal.chain.links ∧
      q.Trailing course watches t0 y0 s.journal := by
  have all := path.preserve
    (P := fun p s => p.OnRoute course watches t0 s.monitor ∧ p.Trailing course watches t0 y0 s.journal ∧
      Unbroken watches course.forward t0 y0 course.target s.journal.chain.links)
    ⟨⟨rfl, created⟩, ⟨rfl, rfl, empty⟩, by rw [empty]; exact .nil⟩
    fun p s q s' ⟨route, trailing, unbroken⟩ move =>
      ⟨onRoute_move directed move route, trailing_move move route trailing, unbroken_move move route trailing unbroken⟩
  exact ⟨all.2.2, all.2.1⟩

/-- The accepted pieces of every run form an unbroken trajectory, whether the run returns or fails.
A run that returns does so where they have led, which is the target unless a handler has chosen to
stop. A run that its inputs rule out is refused without a change of the engine. -/
theorem Engine.integrate_unbroken {e e' : Engine ω Rat} (usable : e.Usable) {equation : Equation ω Rat}
    {t0 target : Rat} {y0 : State Rat} {w w' : ω} {r : Except (Error Rat) (Rat × State Rat)}
    (ran : (Engine.integrate equation t0 y0 target).runFrom (e, w) = (r, e', w')) :
    (∃ error, e.prepare equation t0 y0 target = .error error ∧ r = .error error ∧ e' = e) ∨
      Unbroken e.watches (decide (t0 < target)) t0 y0 target e'.journal.chain.links ∧
        ∀ t y, r = .ok (t, y) → (∃ link ∈ e'.journal.chain.links.getLast?, t = link.piece.stop ∧
          link.Yields e.watches y) ∧ (t = target ∨ ∃ index, .answered index .stop ∈ e'.journal) := by
  rcases integrate_run ran with ⟨⟨error, prepared, refused⟩, same, _⟩ | ⟨course, s, prepared, ran, journal, _⟩
  · exact Or.inl ⟨error, prepared, refused, same⟩
  · obtain ⟨directed, _, _, aim, _, direction⟩ := prepare_ok usable prepared
    obtain ⟨stage, v, path, account, returned⟩ := run_path ran
    obtain ⟨unbroken, trailing⟩ := trailing_moves directed path rfl rfl
    rw [← account.journal, aim, direction, ← journal] at unbroken
    refine Or.inr ⟨unbroken, fun t y same => ?_⟩
    obtain ⟨rfl, rfl⟩ := returned t y same
    obtain ⟨begun, reached, ended⟩ := trailing
    rw [← journal] at begun reached ended
    rw [aim] at ended
    rw [Reaches] at reached
    cases last : e'.journal.chain.links.getLast? with
    | none => exact absurd (List.getLast?_eq_none_iff.mp last) begun
    | some link =>
      rw [last] at reached
      exact ⟨⟨link, rfl, reached⟩, ended⟩

end

/-- Two timers in one run: the first replaces the state in the middle of a step, the second lets the
run go on. -/
theorem Engine.unbroken_timers :
    letI := Spacing.gapless
    let engine := Engine.timed (1 / 2) [(.timer (1 / 4) .resetState (.ofList [5]), ⟨none, 1 / 100, 100, none⟩),
      (.timer (3 / 4) .carryOn (.ofList [0]), ⟨none, 1 / 100, 100, none⟩)]
    ∃ e', (Engine.integrate .steady 0 (.ofList [0]) 1).runFrom (engine, ()) = (.ok (1, .ofList [23 / 4]), e', ()) ∧
      Unbroken engine.watches true 0 (.ofList [0]) 1 e'.journal.chain.links ∧
      e'.journal.chain.links.map (fun link => (link.piece.stop, link.reset)) =
        [(1 / 4, some 0), (3 / 4, none), (1, none)] := by
  intro engine
  have usable : engine.Usable := usable_timed (by decide +kernel) (by decide +kernel)
  have returned : ((@Engine.integrate _ _ _ Spacing.gapless .steady 0 (.ofList [0]) 1).runFrom (engine, ())).1 =
      .ok (1, .ofList [23 / 4]) := by decide +kernel
  refine ⟨_, Prod.ext returned rfl, ?_, by decide +kernel⟩
  rcases @Engine.integrate_unbroken _ Spacing.gapless _ _ usable _ _ _ _ _ _ _ (Prod.ext returned rfl) with
    ⟨_, _, failed, _⟩ | ⟨unbroken, _⟩
  · cases failed
  · exact unbroken

end Trajectory
