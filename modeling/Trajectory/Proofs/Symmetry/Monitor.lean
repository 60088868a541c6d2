import Mathlib.Tactic
import Trajectory.Event.Monitor
import Trajectory.Proofs.Channel
import Trajectory.Proofs.Symmetry.Search
import Trajectory.Proofs.Symmetry.Step

/-!
The watch on the events of a run under a symmetry.

The image of a handler is asked at the images of times and answers as the handler does; its switching
function carries the factor of its place, and if this is negative, it crosses zero in the other
direction (`Handler.image`). A channel that watches the image samples it at the images of times and
finds the images of the roots (`Channel.agree_firstRoot`), so that a scan finds the image of the group
(`Monitor.agree_scan`).
-/

namespace Trajectory

variable {ω : Type} {sym : Symmetry} {i : Nat}

/-- The image of a handler at a place. -/
def Handler.image (sym : Symmetry) (i : Nat) (handler : Handler ω Rat) : Handler ω Rat where
  init t y target := handler.init (sym.time t) y (sym.time target)
  g t y := sym.value i <$> handler.g (sym.time t) y
  eventOccurred t y increasing := handler.eventOccurred (sym.time t) y (sym.turn i increasing)
  resetState t y := handler.resetState (sym.time t) y
  direction := if 0 < sym.factor i then handler.direction else -handler.direction

theorem Handler.wants_image (handler : Handler ω Rat) (increasing : Bool) :
    (handler.image sym i).wants (sym.turn i increasing) = handler.wants increasing := by
  rw [wants, wants, image, Symmetry.turn]
  dsimp only
  by_cases positive : 0 < sym.factor i
  · rw [if_pos positive, if_pos positive]
  · rw [if_neg positive, if_neg positive]
    rcases lt_trichotomy handler.direction 0 with low | undirected | high
    · have known : (handler.direction == 0) = false ∧ (-handler.direction == 0) = false :=
        ⟨beq_false_of_ne low.ne, beq_false_of_ne (by omega)⟩
      have up : 0 < -handler.direction := by omega
      rw [known.1, known.2, decide_eq_true up, decide_eq_false low.not_gt]
      cases increasing <;> rfl
    · rw [undirected]
      rfl
    · have known : (handler.direction == 0) = false ∧ (-handler.direction == 0) = false :=
        ⟨beq_false_of_ne high.ne', beq_false_of_ne (by omega)⟩
      have down : ¬ 0 < -handler.direction := by omega
      rw [known.1, known.2, decide_eq_false down, decide_eq_true high]
      cases increasing <;> rfl

theorem Handler.agree_init (handler : Handler ω Rat) (t : Rat) (y : State Rat) (target : Rat) :
    (handler.init t y target).Agree (Error.Alike sym) Eq Eq
      ((handler.image sym i).init (sym.time t) y (sym.time target)) := by
  rw [image]
  dsimp only
  rw [sym.time_time, sym.time_time]
  exact Effect.agree_refl (Error.alike_refl sym) _

theorem Handler.agree_g (handler : Handler ω Rat) (t : Rat) (y : State Rat) :
    (handler.g t y).Agree (Error.Alike sym) Eq (fun x x' => x' = sym.value i x)
      ((handler.image sym i).g (sym.time t) y) := by
  rw [image]
  dsimp only
  rw [sym.time_time]
  exact Effect.agree_map (Error.alike_refl sym) _ _

theorem Handler.agree_eventOccurred (handler : Handler ω Rat) (t : Rat) (y : State Rat) (increasing : Bool) :
    (handler.eventOccurred t y increasing).Agree (Error.Alike sym) Eq Eq
      ((handler.image sym i).eventOccurred (sym.time t) y (sym.turn i increasing)) := by
  rw [image]
  dsimp only
  rw [sym.time_time, sym.turn_turn]
  exact Effect.agree_refl (Error.alike_refl sym) _

theorem Handler.agree_resetState (handler : Handler ω Rat) (t : Rat) (y : State Rat) :
    (handler.resetState t y).Agree (Error.Alike sym) Eq Eq ((handler.image sym i).resetState (sym.time t) y) := by
  rw [image]
  dsimp only
  rw [sym.time_time]
  exact Effect.agree_refl (Error.alike_refl sym) _

/-- The image of a crossing at a place. -/
def Crossing.image (sym : Symmetry) (i : Nat) (found : Crossing Rat) : Crossing Rat :=
  ⟨sym.time found.root, sym.turn i found.increasing⟩

/-- The image of what a search between two samples has found. -/
def Finding.image (sym : Symmetry) (i : Nat) : Finding Rat → Finding Rat
  | .crossing found => .crossing (found.image sym i)
  | .clear => .clear

/-- The image of a candidate. -/
def Candidate.image (sym : Symmetry) (c : Candidate Rat) : Candidate Rat := ⟨c.index, c.found.image sym c.index⟩

/-- The image of an occurrence. -/
def Occurrence.image (sym : Symmetry) (o : Occurrence Rat) : Occurrence Rat :=
  ⟨o.index, sym.time o.t, sym.time o.root, sym.turn o.index o.increasing⟩

/-- A channel with valid settings, and the channel in its place under a symmetry. -/
structure Channel.Image (sym : Symmetry) (i : Nat) (c c' : Channel ω Rat) : Prop where
  valid : c.settings.valid = true
  handler : c'.handler = c.handler.image sym i
  settings : c'.settings = c.settings
  tRef : c'.tRef = sym.time c.tRef
  gRef : c'.gRef = sym.value i c.gRef
  lastEvent : c'.lastEvent = c.lastEvent.map sym.time
  armed : c'.armed = c.armed

namespace Channel

variable {c c' : Channel ω Rat} {forward : Bool} {g g' : Rat → Effect ω Rat Rat}

/-- Values at the two ends of an interval show a root exactly if their images do. -/
theorem crosses_value (x y : Rat) : crosses (sym.value i x) (sym.value i y) = crosses x y := by
  by_cases start : x = 0
  · simp [crosses, start, sym.value_zero]
  by_cases stop : y = 0
  · simp [crosses, stop, sym.value_zero]
  rw [crosses, crosses, sym.isZero_value, sym.isZero_value, sym.isPositive_value i start, sym.isPositive_value i stop,
    bne, bne, sym.turn_beq]

namespace Image

variable (image : c.Image sym i c')

include image

theorem inWindow (t : Rat) : c'.inWindow (sym.time t) = c.inWindow t := by
  rw [Channel.inWindow, Channel.inWindow, image.lastEvent, image.settings]
  cases c.lastEvent with
  | none => rfl
  | some last => simp only [Option.map_some, ← sym.time_sub, Scalar.abs_rat, sym.abs_time]

theorem accepts (found : Crossing Rat) : c'.accepts (found.image sym i) = c.accepts found := by
  rw [Channel.accepts, Channel.accepts, image.armed, image.handler]
  have inside : c'.inWindow (found.image sym i).root = c.inWindow found.root := image.inWindow found.root
  rw [inside]
  exact congrArg _ (c.handler.wants_image found.increasing)

/-- A start on a zero moves ahead to the image of the point to which it moves. -/
theorem agree_nudged (images : ∀ t, (g t).Agree (Error.Alike sym) Eq (fun x x' => x' = sym.value i x) (g' (sym.time t)))
    (ta ga tb : Rat) :
    (c.nudged forward g ta ga tb).Agree (Error.Alike sym) Eq (fun p p' => p' = (sym.time p.1, sym.value i p.2))
      (c'.nudged (sym.way forward) g' (sym.time ta) (sym.value i ga) (sym.time tb)) := by
  unfold nudged
  rw [sym.isZero_value, sym.time_beq, image.settings]
  refine Effect.agree_ite Iff.rfl (fun _ => ?_) fun _ => Effect.agree_pure rfl
  have offset : Scalar.smaller c.settings.convergence (Scalar.abs (sym.time tb - sym.time ta)) =
      Scalar.smaller c.settings.convergence (Scalar.abs (tb - ta)) := by
    simp only [← sym.time_sub, Scalar.abs_rat, sym.abs_time]
  rw [offset]
  generalize Scalar.smaller c.settings.convergence (Scalar.abs (tb - ta)) = d
  have place : (if sym.way forward = true then sym.time ta + d else sym.time ta - d) =
      sym.time (if forward = true then ta + d else ta - d) := by
    rcases sym.way_cases with ⟨sign, way⟩ | ⟨sign, way⟩
    · simp only [way, Symmetry.time, sign, one_mul]
    · cases forward with
      | true =>
        simp only [way, Symmetry.time, sign, neg_one_mul, Bool.not_true, Bool.false_eq_true, if_false, if_true]
        ring
      | false =>
        simp only [way, Symmetry.time, sign, neg_one_mul, Bool.not_false, Bool.false_eq_true, if_false, if_true]
        ring
  dsimp only
  rw [place]
  refine Effect.agree_bind (images _) ?_
  rintro ga _ rfl
  exact Effect.agree_pure rfl

/-- A search between two samples finds the image of what it finds. -/
theorem agree_between
    (images : ∀ t, (g t).Agree (Error.Alike sym) Eq (fun x x' => x' = sym.value i x) (g' (sym.time t)))
    (tb gb : Rat) (rounds : Nat) (ta ga : Rat) :
    (c.between forward g tb gb rounds ta ga).Agree (Error.Alike sym) Eq (fun r r' => r' = r.image sym i)
      (c'.between (sym.way forward) g' (sym.time tb) (sym.value i gb) rounds (sym.time ta) (sym.value i ga)) := by
  induction rounds generalizing ta ga with
  | zero => exact Effect.agree_throw (Error.alike_refl sym _)
  | succ rounds ih =>
    unfold between
    refine Effect.agree_bind (image.agree_nudged images ta ga tb) ?_
    rintro ⟨x, gx⟩ _ rfl
    dsimp only
    refine Effect.agree_ite (by rw [crosses_value]) (fun crossing => ?_) fun _ => Effect.agree_pure rfl
    obtain ⟨start, change⟩ := crosses_iff.mp crossing
    have positive : 0 < c.settings.search.tolerance := (Settings.valid_iff.mp image.valid).2.1
    rw [image.settings]
    refine Effect.agree_bind (RootSearch.agree_solve positive images start change) ?_
    rintro root _ rfl
    rw [sym.isNegative_value i start]
    have accepted := image.accepts ⟨root, Scalar.isNegative gx⟩
    refine Effect.agree_ite (by rw [← accepted]; rfl) (fun _ => Effect.agree_pure rfl) fun _ => ?_
    refine Effect.agree_bind (images root) ?_
    rintro gRoot _ rfl
    exact Effect.agree_ite (by rw [sym.time_beq]) (fun _ => Effect.agree_pure rfl) fun _ => ih root gRoot

theorem agree_through
    (images : ∀ t, (g t).Agree (Error.Alike sym) Eq (fun x x' => x' = sym.value i x) (g' (sym.time t)))
    (samples : List Rat) (ta ga : Rat) :
    (c.through forward g samples ta ga).Agree (Error.Alike sym) Eq (fun r r' => r' = r.map (Crossing.image sym i))
      (c'.through (sym.way forward) g' (samples.map sym.time) (sym.time ta) (sym.value i ga)) := by
  induction samples generalizing ta ga with
  | nil => exact Effect.agree_pure rfl
  | cons tb rest ih =>
    unfold through
    refine Effect.agree_bind (images tb) ?_
    rintro gb _ rfl
    have rounds : c'.roundsBetween (sym.time ta) (sym.time tb) = c.roundsBetween ta tb := by
      simp only [roundsBetween, image.settings, ← sym.time_sub, Scalar.abs_rat, sym.abs_time]
    rw [rounds]
    refine Effect.agree_bind (image.agree_between images tb gb _ ta ga) ?_
    rintro finding _ rfl
    cases finding with
    | crossing found => exact Effect.agree_pure rfl
    | clear => exact ih tb gb

theorem samples (stop : Rat) (n : Nat) : c'.samples (sym.time stop) n = (c.samples stop n).map sym.time := by
  rw [Channel.samples, Channel.samples, image.tRef, List.map_append, List.map_map]
  congr 1
  refine List.map_congr_left fun k _ => ?_
  dsimp only [Function.comp]
  rw [← sym.time_sub, sym.time_div, sym.mul_time, sym.time_add]

theorem intervals (stop : Rat) : c'.intervals (sym.time stop) = c.intervals stop := by
  simp only [Channel.intervals, image.tRef, image.settings, ← sym.time_sub, Scalar.abs_rat, sym.abs_time]

variable [Spacing Rat]

theorem agree_along (w : Window Rat) (t : Rat) :
    (c.along w t).Agree (Error.Alike sym) Eq (fun x x' => x' = sym.value i x)
      (c'.along (w.image sym) (sym.time t)) := by
  refine Effect.agree_bind (Effect.agree_lift (w.matched_stateAt t)) ?_
  rintro y _ rfl
  rw [image.handler]
  exact c.handler.agree_g t y

/-- A search of the image of a window finds the image of what a search of the window finds. -/
theorem agree_firstRoot (w : Window Rat) :
    (c.firstRoot forward w).Agree (Error.Alike sym) Eq (fun r r' => r' = r.map (Crossing.image sym i))
      (c'.firstRoot (sym.way forward) (w.image sym)) := by
  have stop : (w.image sym).stop = sym.time w.stop := rfl
  unfold firstRoot
  rw [stop, image.tRef, sym.isAfter_time, image.intervals]
  refine Effect.agree_ite Iff.rfl (fun _ => Effect.agree_pure rfl) fun _ => ?_
  refine Effect.agree_bind (Effect.agree_lift (.refl (Error.alike_refl sym) _)) ?_
  rintro n _ rfl
  rw [image.samples, image.gRef]
  exact image.agree_through (image.agree_along w) _ _ _

end Image

end Channel

namespace Candidate

theorem key_image (forward : Bool) (c : Candidate Rat) : (c.image sym).key (sym.way forward) = c.key forward :=
  sym.runSign_mul_time forward c.found.root

theorem earliest_image (forward : Bool) (best : Candidate Rat) (rest : List (Candidate Rat)) :
    earliest (sym.way forward) (best.image sym) (rest.map (image sym)) = (earliest forward best rest).image sym := by
  induction rest generalizing best with
  | nil => rfl
  | cons c rest ih =>
    rw [List.map_cons, earliest, earliest, key_image, key_image, ← ih]
    split <;> rfl

theorem latest_image (forward : Bool) (best : Candidate Rat) (rest : List (Candidate Rat)) :
    latest (sym.way forward) (best.image sym) (rest.map (image sym)) = (latest forward best rest).image sym := by
  induction rest generalizing best with
  | nil => rfl
  | cons c rest ih =>
    rw [List.map_cons, latest, latest, key_image, key_image, ← ih]
    split <;> rfl

end Candidate

/-- A monitor and the one in its place under a symmetry, before a run or while one is under way. -/
structure Monitor.Image (sym : Symmetry) (underway : Prop) (m m' : Monitor ω Rat) : Prop where
  channels : Indexed (Channel.Image sym) 0 m.channels m'.channels
  forward : underway → m'.forward = sym.way m.forward
  status : m'.status = m.status

namespace Monitor

variable {m m' : Monitor ω Rat} {t0 target : Rat} {underway : Prop}

/-- The group of the images of candidates is the image of their group. -/
theorem group_image (forward : Bool) (tolerance : Nat → Rat) (found : List (Candidate Rat)) :
    group (sym.way forward) tolerance (found.map (Candidate.image sym)) =
      (group forward tolerance found).map (Occurrence.image sym) := by
  cases found with
  | nil => rfl
  | cons first rest =>
    have joins : ∀ winner : Candidate Rat,
        ((first :: rest).map (Candidate.image sym)).filter (fun c => decide (runSign (sym.way forward) *
          (c.found.root - (winner.image sym).found.root) ≤ tolerance (winner.image sym).index)) =
        ((first :: rest).filter fun c => decide (runSign forward * (c.found.root - winner.found.root) ≤
          tolerance winner.index)).map (Candidate.image sym) := by
      intro winner
      rw [List.filter_map]
      refine congrArg _ (List.filter_congr fun c _ => decide_eq_decide.mpr ?_)
      have distance : runSign (sym.way forward) * ((c.image sym).found.root - (winner.image sym).found.root) =
          runSign forward * (c.found.root - winner.found.root) := by
        rw [← sym.runSign_mul_time forward, sym.time_sub]
        rfl
      rw [distance]
      exact Iff.rfl
    rw [List.map_cons, group, group]
    dsimp only
    rw [Candidate.earliest_image, ← List.map_cons, joins]
    cases (first :: rest).filter _ with
    | nil => rfl
    | cons member members =>
      simp only [List.map_cons, List.map_map, Candidate.latest_image]
      rfl

theorem Image.create {watches watches' : List (Handler ω Rat × Settings Rat)}
    (valid : ∀ watch ∈ watches, watch.2.valid = true)
    (images : Indexed (fun i watch watch' => watch' = (watch.1.image sym i, watch.2)) 0 watches watches') :
    (Monitor.create watches).Image sym False (Monitor.create watches') := by
  refine ⟨images.map ?_, False.elim, rfl⟩
  rintro i watch mem _ rfl
  exact ⟨valid watch mem, rfl, rfl, sym.time_zero.symm, (sym.value_zero i).symm, rfl, rfl⟩

theorem Image.tolerance (image : m.Image sym underway m') : m'.tolerance = m.tolerance := by
  funext i
  rw [Monitor.tolerance, Monitor.tolerance]
  rcases image.channels.getElem? i with ⟨absent, absent'⟩ | ⟨c, c', known, known', related⟩
  · rw [absent, absent']
  · rw [known, known']
    exact congrArg Settings.convergence related.settings

theorem Image.mono {earlier later : Prop} (implies : later → earlier) (image : m.Image sym earlier m') :
    m.Image sym later m' :=
  { image with forward := fun held => image.forward (implies held) }

theorem agree_change {f : Monitor ω Rat → Monitor ω Rat}
    (kept : ∀ m m', m.Image sym underway m' → (f m).Image sym underway (f m')) :
    (change f).Agree (Error.Alike sym) (Effect.Beside (Image sym underway)) (fun _ _ => True) (change f) :=
  Effect.agree_modify fun _ _ together => ⟨kept _ _ together.1, together.2⟩

theorem agree_changeChannel {f f' : Channel ω Rat → Channel ω Rat}
    (kept : ∀ c c', c.Image sym i c' → (f c).Image sym i (f' c')) :
    (changeChannel f).Agree (Error.Alike sym) (Effect.Beside (Channel.Image sym i)) (fun _ _ => True)
      (changeChannel f') :=
  Effect.agree_modify fun _ _ together => ⟨kept _ _ together.1, together.2⟩

theorem agree_onChannels {x x' : Effect (Channel ω Rat × ω) Rat Unit}
    (each : ∀ i, x.Agree (Error.Alike sym) (Effect.Beside (Channel.Image sym i)) (fun _ _ => True) x') :
    (onChannels (Effect.forEach x)).Agree (Error.Alike sym) (Effect.Beside (Image sym underway)) (fun _ _ => True)
      (onChannels (Effect.forEach x')) := by
  refine Effect.agree_within (fun _ _ together => ⟨together.1.channels, together.2⟩) ?_ (Effect.agree_forEach each 0)
  intro _ _ _ _ together changed
  exact ⟨⟨changed.1, together.1.forward, together.1.status⟩, changed.2⟩

theorem agree_moveReference (t : Rat) (y : State Rat) :
    (moveReference t y).Agree (Error.Alike sym) (Effect.Beside (Channel.Image (ω := ω) sym i)) (fun _ _ => True)
      (moveReference (sym.time t) y) := by
  refine Effect.agree_bind (agree_changeChannel fun c c' image => { image with tRef := rfl }) fun _ _ _ => ?_
  refine Effect.agree_bind Effect.agree_get ?_
  rintro ⟨c, w⟩ ⟨c', _⟩ ⟨image, _⟩
  dsimp only at image ⊢
  rw [image.handler]
  refine Effect.agree_bind (Effect.agree_onSecond (c.handler.agree_g t y)) ?_
  rintro g _ rfl
  exact agree_changeChannel fun c c' image => { image with gRef := rfl }

/-- A monitor and the one in its place are prepared for a run and for the image of the run. -/
theorem leads_init (different : t0 ≠ target) (y0 : State Rat) :
    (init t0 y0 target).Leads (Error.Alike sym) (Effect.Beside (Image (ω := ω) sym underway))
      (Effect.Beside (Image sym True)) (fun _ _ => True) (init (sym.time t0) y0 (sym.time target)) := by
  refine Effect.leads_modify_bind (fun _ _ together =>
    ⟨{ together.1 with forward := fun _ => sym.decide_le_time different }, together.2⟩)
    (fun _ _ together => ⟨together.1.mono fun _ => trivial, together.2⟩) fun _ _ => ?_
  refine Effect.agree_bind (agree_onChannels fun i => ?_) fun _ _ _ =>
    agree_change fun _ _ image => { image with status := rfl }
  refine Effect.agree_bind Effect.agree_get ?_
  rintro ⟨c, w⟩ ⟨c', _⟩ ⟨image, _⟩
  dsimp only at image ⊢
  rw [image.handler]
  refine Effect.agree_bind (Effect.agree_onSecond (c.handler.agree_init t0 y0 target)) fun _ _ _ => ?_
  exact Effect.agree_bind (agree_changeChannel fun c c' image =>
    { image with lastEvent := rfl, armed := rfl }) fun _ _ _ => agree_moveReference t0 y0

theorem agree_commit (t : Rat) (y : State Rat) :
    (commit t y).Agree (Error.Alike sym) (Effect.Beside (Image (ω := ω) sym underway)) (fun _ _ => True)
      (commit (sym.time t) y) := by
  refine agree_onChannels fun i => Effect.agree_bind (agree_moveReference t y) fun _ _ _ => ?_
  refine agree_changeChannel fun c c' image => ?_
  rw [image.armed, image.inWindow]
  split
  · exact { image with armed := rfl }
  · exact image

theorem agree_acknowledge (index : Nat) (t : Rat) :
    (acknowledge index t).Agree (Error.Alike sym) (Effect.Beside (Image (ω := ω) sym underway)) (fun _ _ => True)
      (acknowledge index (sym.time t)) := by
  refine Effect.agree_bind Effect.agree_get ?_
  rintro ⟨m, w⟩ ⟨m', _⟩ ⟨image, _⟩
  dsimp only at image ⊢
  rcases image.channels.getElem? index with ⟨absent, absent'⟩ | ⟨c, c', known, known', related⟩
  · rw [absent, absent']
    exact Effect.agree_throw (Error.alike_refl sym _)
  · rw [known, known']
    refine Effect.agree_modify fun _ _ together => ⟨{ together.1 with channels := ?_ }, together.2⟩
    exact together.1.channels.set { related with lastEvent := rfl, armed := rfl }

variable [Spacing Rat]

theorem agree_candidates (forward : Bool) (w : Window Rat) {base : Nat} {channels channels' : List (Channel ω Rat)}
    (images : Indexed (Channel.Image sym) base channels channels') :
    (candidates forward w base channels).Agree (Error.Alike sym) Eq (fun l l' => l' = l.map (Candidate.image sym))
      (candidates (sym.way forward) (w.image sym) base channels') := by
  induction images with
  | nil => exact Effect.agree_pure rfl
  | cons image rest ih =>
    refine Effect.agree_bind (image.agree_firstRoot w) ?_
    rintro found _ rfl
    refine Effect.agree_bind ih ?_
    rintro later _ rfl
    cases found with
    | none => exact Effect.agree_pure rfl
    | some found => exact Effect.agree_pure rfl

/-- A scan of the image of a window finds the image of the group that a scan of the window finds. -/
theorem agree_scan (w : Window Rat) :
    (scan w).Agree (Error.Alike sym) (Effect.Beside (Image (ω := ω) sym True))
      (fun l l' => l' = l.map (Occurrence.image sym)) (scan (w.image sym)) := by
  refine Effect.agree_bind (agree_change fun _ _ image => { image with status := rfl }) fun _ _ _ => ?_
  refine Effect.agree_bind Effect.agree_get ?_
  rintro ⟨m, v⟩ ⟨m', _⟩ ⟨image, _⟩
  dsimp only at image ⊢
  rw [image.forward trivial, image.tolerance]
  refine Effect.agree_bind (Effect.agree_onSecond (agree_candidates m.forward w image.channels)) ?_
  rintro found _ rfl
  rw [group_image, List.isEmpty_map]
  refine Effect.agree_bind (agree_change fun _ _ image => { image with status := rfl }) fun _ _ _ => ?_
  exact Effect.agree_pure rfl

end Monitor

end Trajectory
