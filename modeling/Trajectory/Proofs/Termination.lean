import Mathlib.Tactic
import Trajectory.Proofs.Delivery
import Trajectory.Proofs.Engine
import Trajectory.Proofs.Halting
import Trajectory.Proofs.Timer

/-!
Every run ends.

If the calls of the right-hand side, the handlers and the observers come to an end, so does every pass
(`Course.halts_approach`, `Handover.halts_perform`): what goes on inside a pass is bounded by the lengths of lists
and by loops with enough room. A pass accepts one piece or fails, and no piece is accepted behind the budget, so that
a run takes at most one pass more than it accepts pieces (`Course.passes_end`). In particular the bounds of the
loops never show: a run comes out the same with any number of passes that is larger than its number of accepted
pieces (`Engine.integrate_ends`).
-/

namespace Trajectory

open Effect Session

variable {ω α β γ : Type}

/-- A session that comes to an end whenever it calls a handler or an observer: the channels are sound, and the
observers have heard of the start of the run. -/
structure Session.Lively (s : Session ω Rat) : Prop where
  channels : ∀ c ∈ s.monitor.channels, c.Sound
  observers : ∀ o ∈ s.observers, o.Served

/-- A session before its observers hear of the start of the run. -/
structure Session.Ready (s : Session ω Rat) : Prop where
  channels : ∀ c ∈ s.monitor.channels, c.Sound
  observers : ∀ o ∈ s.observers, o.Terminates

/-- A verdict that leaves the rest of a run to a handler that comes to an end. -/
def Verdict.Terminates : Verdict ω Rat → Prop
  | .replace _ handler => handler.Terminates
  | _ => True

/-- A handover behind which a pass comes to an end. -/
def Handover.Terminates (h : Handover ω Rat) : Prop := h.rest.HaltsIn Lively

namespace Session

theorem halts_onTally {x : Effect (Tally ω) Rat β} (terminates : x.Terminates) : (onTally x).HaltsIn Lively :=
  halts_within terminates (fun _ _ => trivial) fun _ _ _ lively _ => ⟨lively.channels, lively.observers⟩

theorem halts_outside {x : Effect ω Rat β} (terminates : x.Terminates) : (outside x).HaltsIn Lively :=
  halts_onTally (Tally.terminates_outside terminates)

theorem halts_onMonitor {x : Effect (Monitor ω Rat × ω) Rat β} (halts : x.HaltsIn Monitor.Sound) :
    (onMonitor x).HaltsIn Lively :=
  halts_within halts (fun _ lively => lively.channels) fun _ _ _ lively sound => ⟨sound, lively.observers⟩

theorem halts_note (e : Entry Rat) : (note e : Effect (Session ω Rat) Rat Unit).HaltsIn Lively :=
  haltsIn_modify fun _ lively => ⟨lively.channels, lively.observers⟩

variable [Spacing Rat]

theorem halts_deliver (gaps : ∀ x : Rat, 0 ≤ Spacing.ulp x) (piece : Window Rat) (last : Bool) :
    (deliver piece last : Effect (Session ω Rat) Rat Unit).HaltsIn Lively := by
  refine halts_bind (haltsIn_modify fun _ lively => ⟨lively.channels, lively.observers⟩) fun _ => ?_
  refine halts_bind (halts_note _) fun _ => ?_
  exact halts_within (halts_forEach (Observer.halts_accept gaps piece last)) (fun _ lively => lively.observers)
    fun _ _ _ lively served => ⟨lively.channels, served⟩

end Session

theorem Handover.halts_perform [Spacing Rat] (gaps : ∀ x : Rat, 0 ≤ Spacing.ulp x) {h : Handover ω Rat}
    (terminates : h.Terminates) : h.perform.HaltsIn Lively :=
  halts_bind (halts_deliver gaps h.piece h.last) fun _ => terminates

namespace Course

theorem halts_begin {course : Course ω Rat} (rate : course.equation.toRate.Terminates) (t : Rat) (y : State Rat) :
    (course.begin t y).Halts Ready fun _ => Lively := by
  refine halts_bind (J := fun _ => Ready) ?_ fun yp => ?_
  · exact halts_within (rate.call t y) (fun _ _ => trivial) fun _ _ _ ready _ => ⟨ready.channels, ready.observers⟩
  refine halts_bind (halts_lift (course.equation.prompt_requireSize .derivative yp) fun _ _ => id) fun _ => ?_
  refine halts_bind (J := fun _ => Ready) ?_ fun _ => halts_bind (J := fun _ => Lively) ?_ fun _ => ?_
  · exact halts_within (Monitor.halts_init t y course.target) (fun _ ready => ready.channels)
      fun _ _ _ ready sound => ⟨sound, ready.observers⟩
  · exact halts_within (halts_forEach (Observer.halts_start t y course.target)) (fun _ ready => ready.observers)
      fun _ _ _ ready served => ⟨ready.channels, served⟩
  · exact halts_pure fun _ => id

theorem halts_nextLeg {course : Course ω Rat} (rate : course.equation.toRate.Terminates) (t : Rat) (y : State Rat)
    (yp : Option (State Rat)) : (course.nextLeg t y yp).HaltsIn Lively :=
  halts_bind (halts_onTally (Stepper.terminates_advance rate course.stepper t y _ yp)) fun _ => halts_pure fun _ => id

/-- The members of a group are asked one after the other, and a handler that replaces the state comes to an end. -/
theorem halts_consult (t : Rat) (y : State Rat) (group : List (Occurrence Rat)) {verdict : Verdict ω Rat}
    (terminates : verdict.Terminates) :
    (consult t y group verdict).Halts Lively fun verdict s => verdict.Terminates ∧ s.Lively := by
  induction group generalizing verdict with
  | nil => exact halts_pure fun _ lively => ⟨terminates, lively⟩
  | cons o rest ih =>
    refine halts_get fun s lively => ?_
    cases watched : s.monitor.channels[o.index]? with
    | none => exact halts_throw nofun
    | some channel =>
      have handler := (lively.channels channel (List.mem_of_getElem? watched)).handler
      refine halts_bind (halts_note _) fun _ => ?_
      refine halts_bind (halts_outside (handler.eventOccurred t y o.increasing)) fun action => ?_
      refine halts_bind (halts_note _) fun _ => ?_
      refine halts_bind (halts_onMonitor (Monitor.halts_acknowledge _ _)) fun _ => ?_
      cases action with
      | stop => exact halts_pure fun _ lively => ⟨trivial, lively⟩
      | resetState => exact halts_pure fun _ lively => ⟨handler, lively⟩
      | resetDerivatives => exact ih trivial
      | carryOn => exact ih terminates

theorem halts_restart (t : Rat) (y : State Rat) (atEnd : Bool) :
    (restart t y atEnd : Effect (Session ω Rat) Rat (Progress Rat)).HaltsIn Lively := by
  refine halts_bind (halts_onMonitor (Monitor.halts_commit t y)) fun _ => ?_
  cases atEnd
  · exact halts_pure fun _ => id
  · exact halts_pure fun _ => id

theorem terminates_settling (leg : Leg Rat) (window : Window Rat) :
    (settling leg window : Handover ω Rat).Terminates := by
  refine halts_bind (halts_onMonitor (Monitor.halts_commit _ _)) fun _ => ?_
  exact halts_ite (halts_pure fun _ => id) (halts_pure fun _ => id)

variable [Spacing Rat]

theorem halts_resume (course : Course ω Rat) (leg : Leg Rat) (window : Window Rat) (t : Rat) (y : State Rat)
    (atEnd : Bool) {verdict : Verdict ω Rat} (terminates : verdict.Terminates) :
    (course.resume leg window t y atEnd verdict).HaltsIn Lively := by
  cases verdict with
  | stop => exact halts_bind (halts_note _) fun _ => halts_pure fun _ => id
  | replace index handler =>
    refine halts_bind (halts_outside (Handler.Terminates.resetState terminates t y)) fun z => ?_
    refine halts_bind (halts_lift (course.equation.prompt_requireSize .resetState z) fun _ _ => id) fun _ => ?_
    exact halts_bind (halts_note _) fun _ => halts_restart t z atEnd
  | restart => exact halts_restart t y atEnd
  | carryOn =>
    refine halts_bind (halts_onMonitor (Monitor.halts_commit t y)) fun _ => ?_
    refine halts_ite (halts_ite (halts_pure fun _ => id) (halts_pure fun _ => id)) ?_
    refine halts_bind (halts_lift (window.prompt_restrict t window.stop) fun _ _ => id) fun _ => ?_
    exact halts_pure fun _ => id

theorem halts_scan (window : Window Rat) :
    (scan window : Effect (Session ω Rat) Rat (List (Occurrence Rat))).HaltsIn Lively := by
  refine halts_get fun s lively => halts_ite (halts_pure fun _ => id) ?_
  exact halts_onMonitor (Monitor.halts_scan window)

theorem halts_survey (course : Course ω Rat) (leg : Leg Rat) (window : Window Rat) :
    (course.survey leg window).Halts Lively fun h s => h.Terminates ∧ s.Lively := by
  refine halts_bind (halts_scan window) fun group => ?_
  cases group with
  | nil => exact halts_pure fun _ lively => ⟨terminates_settling leg window, lively⟩
  | cons first rest =>
    refine halts_bind (halts_note _) fun _ => ?_
    refine halts_bind (halts_lift (window.prompt_restrict window.start first.t) fun _ _ => id) fun piece => ?_
    refine halts_bind (halts_consult first.t piece.yStop (first :: rest) trivial) fun verdict => ?_
    exact halts_pure fun _ decided => ⟨course.halts_resume leg window _ _ _ decided.1, decided.2⟩

/-- A pass makes its way to a piece or fails: it takes one step at most, scans one window, and asks every member of a
group once at most. -/
theorem halts_approach {course : Course ω Rat} (rate : course.equation.toRate.Terminates) (phase : Phase Rat) :
    (course.approach phase).Halts Lively fun h s => h.Terminates ∧ s.Lively := by
  cases phase with
  | scanning leg window => exact course.halts_survey leg window
  | stepping t y yp => exact halts_bind (halts_nextLeg rate t y yp) fun leg => course.halts_survey leg _

end Course

/-- A handover accepts its piece, also if what follows it fails. -/
theorem Handover.accepted_perform [Scalar α] [Spacing α] {h : Handover ω α} (idle : h.rest.Idle) (s : Session ω α) :
    (h.perform.runFrom s).2.accepted = s.accepted + 1 := by
  have told : ((deliver h.piece h.last).runFrom s).2.accepted = s.accepted + 1 := by
    simp only [deliver, note, onObservers, runFrom_bind, runFrom_modify, runFrom_within]
  rw [perform, runFrom_bind]
  rcases delivered : (deliver h.piece h.last).runFrom s with ⟨e | ⟨⟩, s'⟩
  · rw [delivered] at told
    exact told
  · rw [delivered] at told
    exact ((idle s' _ _ rfl).accepted).trans told

namespace Course

/-- How the passes of a run from a phase come to their end: not because their number is used up, and behind no more
accepted pieces than the budget allows. Every other number of passes that is larger than the number of pieces that
they accept leads to the same end. -/
structure Ending [Scalar α] [Spacing α] (course : Course ω α) (phase : Phase α) (s : Session ω α)
    (ended : Except (Error α) (α × State α) × Session ω α) : Prop where
  other : ended.1 ≠ .error .stalled
  grown : s.accepted ≤ ended.2.accepted
  affordable : ended.2.accepted ≤ course.budget
  enough : ∀ left, ended.2.accepted < s.accepted + left → (course.passes left phase).runFrom s = ended

section

variable [Scalar α] [Spacing α] {course : Course ω α} {phase next : Phase α} {s s' : Session ω α}
  {ended : Except (Error α) (α × State α) × Session ω α}

/-- The end may come in the first pass. -/
theorem Ending.here (ran : ∀ left, (course.passes (left + 1) phase).runFrom s = ended)
    (other : ended.1 ≠ .error .stalled) (grown : s.accepted ≤ ended.2.accepted)
    (affordable : ended.2.accepted ≤ course.budget) : course.Ending phase s ended := by
  refine ⟨other, grown, affordable, fun left enough => ?_⟩
  cases left with
  | zero => omega
  | succ left => exact ran left

/-- The end may come behind the first pass. -/
theorem Ending.later (ran : ∀ left, (course.passes (left + 1) phase).runFrom s = (course.passes left next).runFrom s')
    (accepted : s'.accepted = s.accepted + 1) (rest : course.Ending next s' ended) : course.Ending phase s ended := by
  have grown := rest.grown
  refine ⟨rest.other, by omega, rest.affordable, fun left enough => ?_⟩
  cases left with
  | zero => omega
  | succ left =>
    rw [ran left]
    exact rest.enough left (by omega)

end

variable [Spacing Rat] {course : Course ω Rat}

/-- Passes with room for the budget come to an end. -/
theorem passes_end (gaps : ∀ x : Rat, 0 ≤ Spacing.ulp x) (rate : course.equation.toRate.Terminates) {phase : Phase Rat}
    (whole : phase.Whole) {s : Session ω Rat} (lively : s.Lively) {left : Nat}
    (room : course.budget < s.accepted + left) (affordable : s.accepted ≤ course.budget) :
    course.Ending phase s ((course.passes left phase).runFrom s) := by
  induction left generalizing phase s with
  | zero => omega
  | succ left ih =>
    obtain ⟨other, terminates⟩ := course.halts_approach rate phase s lively
    rcases approached : (course.approach phase).runFrom s with ⟨e | h, s₁⟩
    · have idle := (course.idle_approach phase _ _ _ approached).accepted
      rw [approached] at other
      have ran (left) : (course.passes (left + 1) phase).runFrom s = (.error e, s₁) := by
        rw [passes, pass_eq, bind_assoc, runFrom_bind, approached]
      rw [ran]
      exact .here ran (fun stalled => other (by rw [Except.error.inj stalled])) idle.ge (idle ▸ affordable)
    · have idle := (course.idle_approach phase _ _ _ approached).accepted
      rw [approached] at terminates
      obtain ⟨later, lively₁⟩ := terminates h rfl
      have ran := fun left => runFrom_passes left approached
      by_cases spent : course.budget ≤ s₁.accepted
      · simp only [if_pos spent] at ran
        rw [ran]
        exact .here ran (fun stalled => by cases stalled) idle.ge (idle ▸ affordable)
      · have fits := approach_ok whole approached
        obtain ⟨other, continues⟩ := h.halts_perform gaps later s₁ lively₁
        have accepted : (h.perform.runFrom s₁).2.accepted = s.accepted + 1 := by rw [h.accepted_perform fits.idle, idle]
        have grown : s.accepted ≤ (h.perform.runFrom s₁).2.accepted := by omega
        have within : (h.perform.runFrom s₁).2.accepted ≤ course.budget := by omega
        simp only [if_neg spent] at ran
        rcases performed : h.perform.runFrom s₁ with ⟨e | ⟨t, y⟩ | next, s₂⟩
        · rw [performed] at ran other grown within
          rw [ran]
          exact .here ran (fun stalled => other (by rw [Except.error.inj stalled])) grown within
        · rw [performed] at ran grown within
          rw [ran]
          exact .here ran (prompt_ok _) grown within
        · obtain ⟨_, _, onward⟩ := fits.perform_ok performed
          rw [performed] at ran continues accepted within
          dsimp only at accepted within
          rw [ran]
          exact .later ran accepted (ih (onward next rfl).2.2 (continues _ rfl) (by omega) within)

omit [Spacing Rat] in
/-- A run with at most so many passes, whatever the budget. -/
def runFor [Scalar α] [Spacing α] (passes : Nat) (course : Course ω α) (t : α) (y : State α) :
    Effect (Session ω α) α (α × State α) := do
  let yp ← course.begin t y
  course.passes passes (.stepping t y (some yp))

/-- A run comes to an end. -/
theorem run_end (gaps : ∀ x : Rat, 0 ≤ Spacing.ulp x) (rate : course.equation.toRate.Terminates) (t : Rat)
    (y : State Rat) {s : Session ω Rat} (ready : s.Ready) (fresh : s.accepted = 0) :
    let run := (course.run t y).runFrom s
    run.1 ≠ .error .stalled ∧ run.2.accepted ≤ course.budget ∧
      ∀ passes, run.2.accepted < passes → (course.runFor passes t y).runFrom s = run := by
  obtain ⟨other, begun⟩ := halts_begin rate t y s ready
  rw [run_eq, runFrom_bind]
  simp only [runFor, runFrom_bind]
  rcases opened : (course.begin t y).runFrom s with ⟨e | yp, s₁⟩
  · have started : s₁.accepted = 0 := (silent_begin t y s _ _ opened).2.trans fresh
    rw [opened] at other
    exact ⟨fun stalled => other (by rw [Except.error.inj stalled]), started ▸ Nat.zero_le _, fun _ _ => rfl⟩
  · have started : s₁.accepted = 0 := (silent_begin t y s _ _ opened).2.trans fresh
    rw [opened] at begun
    have lively : s₁.Lively := begun yp rfl
    have whole : (Phase.stepping t y (some yp)).Whole := trivial
    have room : course.budget < s₁.accepted + (course.budget + 1) := by omega
    have ending := passes_end gaps rate whole lively room (started ▸ Nat.zero_le _)
    exact ⟨ending.other, ending.affordable, fun passes more => ending.enough passes (by rwa [started, Nat.zero_add])⟩

end Course

namespace Engine

/-- Integrates with at most so many passes, whatever the budget. -/
def integrateFor [Scalar α] [Spacing α] (passes : Nat) (equation : Equation ω α) (t0 : α) (y0 : State α) (target : α) :
    Effect (Engine ω α × ω) α (α × State α) :=
  conduct (fun course => course.runFor passes t0 y0) equation t0 y0 target

theorem prompt_prepare (e : Engine ω Rat) (equation : Equation ω Rat) (t0 : Rat) (y0 : State Rat) (target : Rat) :
    Prompt (e.prepare equation t0 y0 target) := by
  have bounds : Prompt (requireBounds t0 target) := prompt_ite (prompt_ok _) nofun
  have signed (forward) : Prompt (e.signedStep forward) := prompt_ite nofun (prompt_ok _)
  refine prompt_bind bounds fun _ => prompt_bind (equation.prompt_requireSize .state y0) fun _ => ?_
  exact prompt_ite nofun (prompt_bind (signed _) fun _ => prompt_ok _)

/-- A session that begins with the handlers and the observers of an engine. -/
theorem ready_start {e : Engine ω Rat} (valid : ∀ watch ∈ e.watches, watch.2.valid = true)
    (handlers : ∀ watch ∈ e.watches, watch.1.Terminates) (observers : ∀ o ∈ e.observers, o.Terminates) (w : ω) :
    (Session.start w (Monitor.create e.watches) e.observers).Ready := by
  refine ⟨fun c mem => ?_, observers⟩
  obtain ⟨watch, listed, rfl⟩ := List.mem_map.mp mem
  exact ⟨valid watch listed, handlers watch listed⟩

/-- Every run ends, with a result or with an error, if the right-hand side, the handlers and the observers come to an
end when they are called: none of its loops uses up its rounds. A run that is not refused accepts no more pieces than
the budget allows, and takes at most one pass more, each of which scans one window at most: with any larger number of
passes it is the same in every respect. -/
theorem integrate_ends [Spacing Rat] (gaps : ∀ x : Rat, 0 ≤ Spacing.ulp x) {e : Engine ω Rat}
    (valid : ∀ watch ∈ e.watches, watch.2.valid = true) (handlers : ∀ watch ∈ e.watches, watch.1.Terminates)
    (observers : ∀ o ∈ e.observers, o.Terminates) {equation : Equation ω Rat} (rate : equation.toRate.Terminates)
    (t0 : Rat) (y0 : State Rat) (target : Rat) (w : ω) :
    let run := (integrate equation t0 y0 target).runFrom (e, w)
    run.1 ≠ .error .stalled ∧
      ((e.prepare equation t0 y0 target).isOk = true → run.2.1.accepted ≤ e.maxSteps) ∧
      ∀ passes, run.2.1.accepted < passes → (integrateFor passes equation t0 y0 target).runFrom (e, w) = run := by
  rw [integrate_eq_conduct]
  intro run
  cases prepared : e.prepare equation t0 y0 target with
  | error refused =>
    have refusal : run = (.error refused, e, w) := conduct_refused prepared w
    have other : Prompt (.error refused) := prepared ▸ e.prompt_prepare equation t0 y0 target
    rw [refusal]
    exact ⟨fun stalled => other (by rw [Except.error.inj stalled]), nofun, fun _ _ => conduct_refused prepared w⟩
  | ok course =>
    have account : run = _ := conduct_prepared prepared w
    have ready := ready_start valid handlers observers w
    obtain ⟨other, affordable, enough⟩ := course.run_end gaps (equation_of_prepare prepared ▸ rate) t0 y0 ready rfl
    rw [account]
    refine ⟨other, fun _ => budget_of_prepare prepared ▸ affordable, fun passes more => ?_⟩
    rw [integrateFor, conduct_prepared prepared, enough passes more]

/-- A dip of which only the second root is wanted, and observers with times and a grid of their own. -/
def skippingDip : Engine Unit Rat :=
  ((timed 1 [({ SwitchingFunction.dip (1 / 3) 2 with direction := 1 }, ⟨none, 1 / 100, 100, none⟩)]).addObserver
    (.sampler (.create [0, 1 / 2, 3]))).addObserver (.normalizer ⟨1 / 4, fun _ _ _ => pure (), 0, 0, 1 / 4, none⟩)

/-- The search skips the first root of the dip and looks at the same sample again, and the run ends. Four passes are
enough for the three pieces that it accepts. -/
theorem skippingDip_ends :
    letI := Spacing.gapless
    let run := (integrate .steady 0 (.ofList [0]) 3).runFrom (skippingDip, ())
    run.1 ≠ .error .stalled ∧ run.2.1.accepted = 3 ∧
      (integrateFor 4 .steady 0 (.ofList [0]) 3).runFrom (skippingDip, ()) = run := by
  let := Spacing.gapless
  intro run
  have rate : Equation.steady.toRate.Terminates :=
    ⟨fun _ _ => halts_pure fun _ _ => trivial, halts_pure fun _ _ => trivial, fun _ _ => prompt_ok _⟩
  have handlers : ∀ watch ∈ skippingDip.watches, watch.1.Terminates := by
    intro watch mem
    rw [List.mem_singleton.mp mem]
    exact ⟨fun _ _ _ => halts_pure fun _ _ => trivial, fun _ _ => halts_pure fun _ _ => trivial,
      fun _ _ _ => halts_pure fun _ _ => trivial, fun _ _ => halts_pure fun _ _ => trivial⟩
  have observers : ∀ o ∈ skippingDip.observers, o.Terminates := by
    intro o mem
    rcases List.mem_cons.mp mem with rfl | mem
    · trivial
    · rw [List.mem_singleton.mp mem]
      exact ⟨by norm_num, fun _ _ _ => halts_pure fun _ _ => trivial⟩
  have accepted : run.2.1.accepted = 3 := by decide +kernel
  obtain ⟨other, _, enough⟩ :=
    integrate_ends (fun _ => le_rfl) (by decide +kernel) handlers observers rate 0 (.ofList [0]) 3 ()
  exact ⟨other, accepted, enough 4 (accepted ▸ by decide)⟩

end Engine

end Trajectory
