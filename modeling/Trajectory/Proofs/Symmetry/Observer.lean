import Mathlib.Tactic
import Trajectory.Observer
import Trajectory.Proofs.Observer.Sampler
import Trajectory.Proofs.Symmetry.Step

/-!
Observers under a symmetry.

An observer and the one in its place ask for the images of each other's times, and a caller's function
is told of the images (`Observer.Image`). Each kind reports the same states at the images of the times,
before a run and during one; what a run has set at its start is an image only while it is under way.
-/

namespace Trajectory

variable {ω : Type} {sym : Symmetry}

/-- The image of a row of a table. -/
def Symmetry.row (sym : Symmetry) (entry : Rat × State Rat) : Rat × State Rat := (sym.time entry.1, entry.2)

/-- The image of a recorder. -/
def Recorder.image (sym : Symmetry) (r : Recorder Rat) : Recorder Rat := ⟨r.latestRows.map sym.row, r.latestFlags⟩

/-- A sampler and the one in its place. -/
structure Sampler.Image (sym : Symmetry) (underway : Prop) (s s' : Sampler Rat) : Prop where
  requested : s'.requested = s.requested.map sym.time
  rows : s'.latestRows = s.latestRows.map sym.row
  pending : underway → s'.pending = s.pending.map sym.time
  forward : underway → s'.forward = sym.way s.forward

/-- A normalizer with a positive spacing, and the one in its place. -/
structure Normalizer.Image (sym : Symmetry) (underway : Prop) (n n' : Normalizer ω Rat) : Prop where
  positive : 0 < n.spacing
  spacing : n'.spacing = n.spacing
  callback : n'.callback = fun t => n.callback (sym.time t)
  directed : underway → n.signedSpacing ≠ 0
  signed : underway → n'.signedSpacing = sym.time n.signedSpacing
  start : underway → n'.t0 = sym.time n.t0
  count : underway → n'.count = n.count
  lastTime : underway → n'.lastTime = n.lastTime.map sym.time

/-- A tracker and the one in its place, which knows the same solution at the images of times. -/
structure Tracker.Image (sym : Symmetry) (k k' : Tracker ω Rat) : Prop where
  solution : ∀ t, k'.problem.solutionAt (sym.time t) = k.problem.solutionAt t
  expected : k'.problem.eventTimes = k.problem.eventTimes.map sym.time
  values : k'.maxValueError = k.maxValueError
  times : k'.maxTimeError = k.maxTimeError
  lastError : k'.lastError = k.lastError
  lastTime : k'.lastTime = sym.time k.lastTime
  boundaries : k'.latestBoundaries = k.latestBoundaries.map sym.time

/-- An observer and the one in its place under a symmetry, before a run or while one is under way. -/
inductive Observer.Image (sym : Symmetry) (underway : Prop) : Observer ω Rat → Observer ω Rat → Prop where
  | recorder (r : Recorder Rat) : Image sym underway (.recorder r) (.recorder (r.image sym))
  | sampler {s s'} (image : Sampler.Image sym underway s s') : Image sym underway (.sampler s) (.sampler s')
  | normalizer {n n'} (image : Normalizer.Image sym underway n n') :
      Image sym underway (.normalizer n) (.normalizer n')
  | tracker {k k'} (image : Tracker.Image sym k k') : Image sym underway (.tracker k) (.tracker k')
  | custom (onStart : Rat → State Rat → Rat → Effect ω Rat Unit) (onPiece : Window Rat → Bool → Effect ω Rat Unit) :
      Image sym underway (.custom onStart onPiece)
        (.custom (fun t y target => onStart (sym.time t) y (sym.time target)) fun piece => onPiece (piece.image sym))

theorem Observer.Image.mono {o o' : Observer ω Rat} {earlier later : Prop} (implies : later → earlier)
    (image : o.Image sym earlier o') : o.Image sym later o' := by
  cases image with
  | recorder r => exact .recorder r
  | sampler image => exact .sampler { image with
      pending := fun held => image.pending (implies held), forward := fun held => image.forward (implies held) }
  | normalizer image => exact .normalizer { image with
      directed := fun held => image.directed (implies held)
      signed := fun held => image.signed (implies held)
      start := fun held => image.start (implies held)
      count := fun held => image.count (implies held)
      lastTime := fun held => image.lastTime (implies held) }
  | tracker image => exact .tracker image
  | custom onStart onPiece => exact .custom onStart onPiece

namespace Sampler

variable {s s' : Sampler Rat} {underway : Prop} {t0 target : Rat}

theorem Image.start (image : s.Image sym underway s') (different : t0 ≠ target) (y0 : State Rat) :
    (s.start t0 y0 target).Image sym True (s'.start (sym.time t0) y0 (sym.time target)) where
  requested := image.requested
  rows := by
    rw [Sampler.start, Sampler.start, image.requested, List.takeWhile_map, List.map_map, List.map_map]
    simp only [Function.comp_def, sym.time_beq]
    rfl
  pending _ := by
    rw [Sampler.start, Sampler.start, image.requested, List.dropWhile_map]
    simp only [Function.comp_def, sym.time_beq]
  forward _ := sym.decide_le_time different

theorem reached_time (forward : Bool) (t bound : Rat) :
    reached (sym.way forward) (sym.time t) (sym.time bound) = reached forward t bound := by
  rw [Bool.eq_iff_iff, reached_iff, reached_iff, sym.notAfter_time]

variable [Spacing Rat]

theorem take_image (sym : Symmetry) (forward : Bool) (piece : Window Rat) (ts : List Rat) (rows : List (Rat × State Rat)) :
    Matched (Error.Alike sym) (fun _ _ => True) (take forward piece ts rows).1
        (take (sym.way forward) (piece.image sym) (ts.map sym.time) (rows.map sym.row)).1 ∧
      (take (sym.way forward) (piece.image sym) (ts.map sym.time) (rows.map sym.row)).2 =
        ((take forward piece ts rows).2.1.map sym.time, (take forward piece ts rows).2.2.map sym.row) := by
  induction ts generalizing rows with
  | nil => exact ⟨.ok trivial, rfl⟩
  | cons t rest ih =>
    have reach : reached (sym.way forward) (sym.time t) (piece.image sym).stop = reached forward t piece.stop :=
      reached_time forward t piece.stop
    rw [List.map_cons, take, take, reach]
    split
    · have answered : Matched (Error.Alike sym) Eq (piece.stateAt t) ((piece.image sym).stateAt (sym.time t)) :=
        piece.matched_stateAt t
      generalize piece.stateAt t = r at answered
      generalize (piece.image sym).stateAt (sym.time t) = r' at answered
      cases answered with
      | error alike => exact ⟨.error alike, rfl⟩
      | ok same =>
        subst same
        exact ih ((t, _) :: rows)
    · exact ⟨.ok trivial, rfl⟩

theorem Image.accept (image : s.Image sym True s') (piece : Window Rat) :
    Matched (Error.Alike sym) (fun _ _ => True) (s.accept piece).1 (s'.accept (piece.image sym)).1 ∧
      (s.accept piece).2.Image sym True (s'.accept (piece.image sym)).2 := by
  obtain ⟨matched, left⟩ := take_image sym s.forward piece s.pending s.latestRows
  rw [Sampler.accept, Sampler.accept, image.forward trivial, image.pending trivial, image.rows]
  exact ⟨matched, image.requested, congrArg Prod.snd left, fun _ => congrArg Prod.fst left,
    fun _ => rfl⟩

end Sampler

namespace Normalizer

variable {n n' : Normalizer ω Rat} {underway : Prop} {t0 target : Rat}

theorem agree_callback (image : n.Image sym underway n') (t : Rat) (y : State Rat) (last : Bool) :
    (n.callback t y last).Agree (Error.Alike sym) Eq (fun _ _ => True) (n'.callback (sym.time t) y last) := by
  rw [image.callback]
  dsimp only
  rw [sym.time_time]
  exact (Effect.agree_refl (Error.alike_refl sym) _).mono fun _ _ _ => trivial

theorem Image.gridPoint (image : n.Image sym True n') (k : Nat) : n'.gridPoint k = sym.time (n.gridPoint k) := by
  rw [Normalizer.gridPoint, Normalizer.gridPoint, image.start trivial, image.signed trivial, sym.mul_time, sym.time_add]

theorem Image.beyond (image : n.Image sym True n') (t bound : Rat) :
    n'.beyond (sym.time t) (sym.time bound) = n.beyond t bound := by
  -- A grid that leads nowhere counts as one that leads back, and so would its image.
  have nonzero := image.directed trivial
  simp only [Normalizer.beyond, image.signed trivial, Scalar.isPositive_rat]
  rcases sym.unit with sign | sign
  · simp only [Symmetry.time, sign, one_mul]
  · simp only [Symmetry.time, sign, neg_one_mul, neg_lt_neg_iff, Left.neg_pos_iff]
    rcases lt_or_gt_of_ne nonzero with low | high
    · simp [low, low.not_gt]
    · simp [high, high.not_gt]

/-- What a normalizer and the one in its place are told at the start of a run and of the image of the
run. -/
theorem Image.started (image : n.Image sym underway n') (different : t0 ≠ target) :
    ({ n with
      t0 := t0
      count := 0
      signedSpacing := if t0 ≤ target then n.spacing else -n.spacing
      lastTime := some t0 } : Normalizer ω Rat).Image sym True
    { n' with
      t0 := sym.time t0
      count := 0
      signedSpacing := if sym.time t0 ≤ sym.time target then n'.spacing else -n'.spacing
      lastTime := some (sym.time t0) } where
  positive := image.positive
  spacing := image.spacing
  callback := image.callback
  directed _ := by
    have positive := image.positive
    dsimp only
    split
    · exact positive.ne'
    · exact (neg_neg_of_pos positive).ne
  signed _ := by
    have way := sym.decide_le_time different
    have sided : ∀ s t : Rat, (if s ≤ t then n.spacing else -n.spacing) = runSign (decide (s ≤ t)) * n.spacing := by
      intro s t
      by_cases before : s ≤ t
      · rw [if_pos before, decide_eq_true before, runSign_true, one_mul]
      · rw [if_neg before, decide_eq_false before, runSign_false, neg_one_mul]
    dsimp only
    rw [image.spacing, sided, sided, way, sym.runSign_way, Symmetry.time, mul_assoc]
  start _ := rfl
  count _ := rfl
  lastTime _ := rfl

theorem Image.reported (image : n.Image sym True n') (t : Rat) (count : Nat) :
    ({ n with count := count, lastTime := some t } : Normalizer ω Rat).Image sym True
      { n' with count := count, lastTime := some (sym.time t) } :=
  { image with count := fun _ => rfl, lastTime := fun _ => rfl }

variable [Spacing Rat]

theorem agree_report (piece : Window Rat) (last : Bool) (rounds : Nat) :
    (report piece last rounds).Agree (Error.Alike sym) (Effect.Beside (Image (ω := ω) sym True)) (fun _ _ => True)
      (report (piece.image sym) last rounds) := by
  induction rounds with
  | zero => exact Effect.agree_throw (Error.alike_refl sym _)
  | succ rounds ih =>
    unfold report
    refine Effect.agree_bind Effect.agree_get ?_
    rintro ⟨n, w⟩ ⟨n', _⟩ ⟨image, _⟩
    dsimp only at image ⊢
    have stop : (piece.image sym).stop = sym.time piece.stop := rfl
    rw [image.count trivial, image.gridPoint, stop, image.beyond]
    refine Effect.agree_ite Iff.rfl (fun _ => Effect.agree_pure trivial) fun _ => ?_
    refine Effect.agree_bind (Effect.agree_modify fun _ _ together =>
      ⟨?_, together.2⟩) fun _ _ _ => ?_
    · rw [together.1.count trivial]
      exact together.1.reported _ _
    · refine Effect.agree_bind (Effect.agree_lift (piece.matched_stateAt _)) ?_
      rintro y _ rfl
      rw [sym.time_beq]
      exact Effect.agree_bind (Effect.agree_onSecond (agree_callback image _ y _)) fun _ _ _ => ih

theorem Image.rounds (image : n.Image sym True n') (piece : Window Rat) :
    n'.rounds (piece.image sym) = n.rounds piece := by
  have stop : (piece.image sym).stop = sym.time piece.stop := rfl
  rw [Normalizer.rounds, Normalizer.rounds, image.start trivial, image.spacing, piece.slack_image, stop,
    ← sym.time_sub, Scalar.abs_rat, Scalar.abs_rat, sym.abs_time]

theorem agree_accept (piece : Window Rat) (last : Bool) :
    (accept piece last).Agree (Error.Alike sym) (Effect.Beside (Image (ω := ω) sym True)) (fun _ _ => True)
      (accept (piece.image sym) last) := by
  unfold accept
  refine Effect.agree_bind Effect.agree_get ?_
  rintro ⟨n, w⟩ ⟨n', _⟩ ⟨image, _⟩
  dsimp only at image ⊢
  rw [image.rounds]
  refine Effect.agree_bind (agree_report piece last _) fun _ _ _ => ?_
  refine Effect.agree_bind Effect.agree_get ?_
  rintro ⟨n, w⟩ ⟨n', _⟩ ⟨image, _⟩
  dsimp only at image ⊢
  rw [image.lastTime trivial]
  refine Effect.agree_ite ?_ (fun _ => ?_) fun _ => Effect.agree_pure trivial
  · cases n.lastTime with
    | none => exact Iff.rfl
    | some t =>
      change (last && !(sym.time t == sym.time piece.stop)) = true ↔ (last && !(t == piece.stop)) = true
      rw [sym.time_beq]
  refine Effect.agree_bind (Effect.agree_modify fun _ _ together =>
    ⟨{ together.1 with lastTime := fun _ => rfl }, together.2⟩) fun _ _ _ => ?_
  exact Effect.agree_onSecond (agree_callback image _ _ _)

end Normalizer

namespace Tracker

variable {k k' : Tracker ω Rat}

theorem nearest_image (t : Rat) (boundaries : List Rat) :
    nearest (sym.time t) (boundaries.map sym.time) = nearest t boundaries := by
  cases boundaries with
  | nil => rfl
  | cons b rest =>
    rw [List.map_cons, nearest, nearest, List.foldl_map]
    simp only [← sym.time_sub, Scalar.abs_rat, sym.abs_time]

theorem Image.timeError (image : k.Image sym k') (least : Rat) : k'.timeError least = k.timeError least := by
  rw [Tracker.timeError, Tracker.timeError, image.expected, image.boundaries, List.foldl_map, ← List.map_reverse]
  simp only [nearest_image]

theorem Image.deviation (image : k.Image sym k') (t : Rat) (y : State Rat) :
    k'.deviation (sym.time t) y = k.deviation t y := by
  rw [Tracker.deviation, Tracker.deviation, image.solution]

theorem Image.start (image : k.Image sym k') (t0 : Rat) : (k.start t0).Image sym (k'.start (sym.time t0)) :=
  ⟨image.solution, image.expected, rfl, rfl, rfl, rfl, rfl⟩

variable [Spacing Rat]

theorem Image.midpointError (image : k.Image sym k') (piece : Window Rat) :
    Matched (Error.Alike sym) Eq (k.midpointError piece) (k'.midpointError (piece.image sym)) := by
  have middle : 0.5 * ((piece.image sym).start + (piece.image sym).stop) =
      sym.time (0.5 * (piece.start + piece.stop)) := by
    rw [← sym.mul_time, sym.time_add]
    rfl
  unfold Tracker.midpointError
  rw [middle]
  refine (piece.matched_stateAt _).bind ?_
  rintro y _ rfl
  rw [image.deviation]
  exact .refl (Error.alike_refl sym) _

theorem agree_accept (piece : Window Rat) (last : Bool) :
    (accept piece last).Agree (Error.Alike sym) (Image (ω := ω) sym) (fun _ _ => True)
      (accept (piece.image sym) last) := by
  unfold accept
  refine Effect.agree_bind Effect.agree_get ?_
  intro k k' image
  refine Effect.agree_bind (Effect.agree_lift (image.midpointError piece)) ?_
  rintro error _ rfl
  refine Effect.agree_bind (Effect.agree_modify fun l l' image => ?_) fun _ _ _ => ?_
  · exact { image with
      values := by rw [image.values]
      boundaries := by
        dsimp only
        rw [image.boundaries]
        rfl }
  refine Effect.agree_ite Iff.rfl (fun _ => ?_) fun _ => Effect.agree_pure trivial
  have final : Matched (Error.Alike sym) Eq (k.deviation piece.stop piece.yStop)
      (k'.deviation (piece.image sym).stop (piece.image sym).yStop) := by
    have same : k'.deviation (piece.image sym).stop (piece.image sym).yStop = k.deviation piece.stop piece.yStop :=
      image.deviation piece.stop piece.yStop
    rw [same]
    exact .refl (Error.alike_refl sym) _
  refine Effect.agree_bind (Effect.agree_lift final) ?_
  rintro final _ rfl
  refine Effect.agree_modify fun l l' image => ?_
  have latest : l'.timeError l'.maxTimeError = l.timeError l.maxTimeError := by rw [image.times, image.timeError]
  exact { image with lastError := rfl, lastTime := rfl, times := latest }

end Tracker

namespace Observer

variable {t0 target : Rat} {underway : Prop}

/-- An observer and the one in its place are told of the start of a run and of its image. -/
theorem agree_start (different : t0 ≠ target) (y0 : State Rat) {o o' : Observer ω Rat} (image : o.Image sym underway o')
    (w : ω) :
    Matched (Error.Alike sym) (fun _ _ => True) ((start t0 y0 target).runFrom (o, w)).1
        ((start (sym.time t0) y0 (sym.time target)).runFrom (o', w)).1 ∧
      Effect.Beside (Image sym True) ((start t0 y0 target).runFrom (o, w)).2
        ((start (sym.time t0) y0 (sym.time target)).runFrom (o', w)).2 := by
  cases image with
  | recorder r => exact ⟨.ok trivial, .recorder (Recorder.start t0 y0), rfl⟩
  | sampler image => exact ⟨.ok trivial, .sampler (image.start different y0), rfl⟩
  | tracker image => exact ⟨.ok trivial, .tracker (image.start t0), rfl⟩
  | custom onStart onPiece =>
    dsimp only [start, Effect.runFrom_of]
    rw [sym.time_time, sym.time_time]
    exact ⟨(Matched.refl (Error.alike_refl sym) _).mono fun _ _ _ => trivial, .custom onStart onPiece, rfl⟩
  | @normalizer n n' image =>
    have begun := image.started different
    obtain ⟨matched, same⟩ := Normalizer.agree_callback begun t0 y0 false w w rfl
    exact ⟨matched, .normalizer begun, same⟩

variable [Spacing Rat]

/-- An observer and the one in its place are handed a piece and its image. -/
theorem agree_accept (piece : Window Rat) (last : Bool) :
    (accept piece last).Agree (Error.Alike sym) (Effect.Beside (Image (ω := ω) sym True)) (fun _ _ => True)
      (accept (piece.image sym) last) := by
  rintro ⟨o, w⟩ ⟨o', _⟩ ⟨image, rfl⟩
  dsimp only at image
  cases image with
  | recorder r => exact ⟨.ok trivial, .recorder (r.accept piece last), rfl⟩
  | sampler image =>
    obtain ⟨matched, kept⟩ := image.accept piece
    exact ⟨matched, .sampler kept, rfl⟩
  | tracker image =>
    obtain ⟨matched, kept⟩ := Tracker.agree_accept piece last _ _ image
    exact ⟨matched, .tracker kept, rfl⟩
  | custom onStart onPiece =>
    dsimp only [accept, Effect.runFrom_of]
    rw [piece.image_image]
    exact ⟨(Matched.refl (Error.alike_refl sym) _).mono fun _ _ _ => trivial, .custom onStart onPiece, rfl⟩
  | @normalizer n n' image =>
    obtain ⟨matched, kept, same⟩ := Normalizer.agree_accept piece last (n, w) (n', w) ⟨image, rfl⟩
    exact ⟨matched, .normalizer kept, same⟩

end Observer

end Trajectory
