import Mathlib.Tactic
import Trajectory.Proofs.Continuity
import Trajectory.Proofs.Delivery
import Trajectory.Proofs.Safety

/-!
What a sampler holds after a run.

The accepted pieces of a run follow one another (`Following`), so that every time behind the start of the
run and not beyond its end lies in one of them only. A sampler waits for its times in their order, and takes
each from the piece in which it lies (`Sampler.attends`). Its rows make a table if all pieces answer with
states of one shape, which they do for equations and handlers that answer for every state of the right
size (`Engine.pieces_answer`).
-/

namespace Trajectory

open Effect

variable {ω : Type} {forward : Bool} {a t T : Rat} {pieces : List (Window Rat × Bool)}

/-- Pieces that lead along a run, each from the end of the one before it, the first one from a given time. -/
def Following (forward : Bool) : Rat → List (Window Rat × Bool) → Prop
  | _, [] => True
  | a, (piece, _) :: rest =>
    piece.start = a ∧ Precedes forward piece.start piece.stop ∧ Following forward piece.stop rest

namespace Following

/-- The end of every piece lies between the time from which the pieces lead and the end of the last one. -/
theorem between (following : Following forward a pieces) : NotAfter forward a (lastStop a pieces) ∧
    ∀ p ∈ pieces, NotAfter forward a p.1.start ∧ NotAfter forward p.1.stop (lastStop a pieces) := by
  induction pieces generalizing a with
  | nil => exact ⟨.refl, fun _ mem => absurd mem List.not_mem_nil⟩
  | cons p rest ih =>
    obtain ⟨rfl, ahead, following⟩ := following
    obtain ⟨reached, inside⟩ := ih following
    refine ⟨ahead.notAfter.trans reached, fun q mem => ?_⟩
    rcases List.mem_cons.mp mem with rfl | mem
    · exact ⟨.refl, reached⟩
    · exact ⟨ahead.notAfter.trans (inside q mem).1, (inside q mem).2⟩

/-- Every piece leads on. -/
theorem advancing (following : Following forward a pieces) : ∀ p ∈ pieces, Precedes forward p.1.start p.1.stop := by
  induction pieces generalizing a with
  | nil => exact fun _ mem => absurd mem List.not_mem_nil
  | cons p rest ih =>
    obtain ⟨_, ahead, following⟩ := following
    intro q mem
    rcases List.mem_cons.mp mem with rfl | mem
    · exact ahead
    · exact ih following q mem

/-- The pieces before the last one follow one another, and it goes on where they end. -/
theorem init {earlier : List (Window Rat × Bool)} {piece : Window Rat} {flag : Bool}
    (following : Following forward a (earlier ++ [(piece, flag)])) : Following forward a earlier ∧
      piece.start = lastStop a earlier ∧ Precedes forward piece.start piece.stop := by
  induction earlier generalizing a with
  | nil => exact ⟨trivial, following.1, following.2.1⟩
  | cons p rest ih =>
    obtain ⟨begun, ahead, following⟩ := following
    obtain ⟨before, joined, leads⟩ := ih following
    exact ⟨⟨begun, ahead, before⟩, joined, leads⟩

/-- The end of the last piece lies behind the time from which the pieces lead. -/
theorem leads {earlier : List (Window Rat × Bool)} {piece : Window Rat} {flag : Bool}
    (following : Following forward a (earlier ++ [(piece, flag)])) : Precedes forward a piece.stop := by
  have last : (piece, flag) ∈ earlier ++ [(piece, flag)] := List.mem_append_right _ List.mem_cons_self
  exact (following.between.2 _ last).1.trans_precedes (following.advancing _ last)

/-- A time lies in one of the pieces at most. -/
theorem unique (following : Following forward a pieces) {p q : Window Rat × Bool} (first : p ∈ pieces)
    (second : q ∈ pieces) (held : p.1.Holds forward t) (held' : q.1.Holds forward t) : q.1 = p.1 := by
  induction pieces generalizing a with
  | nil => exact absurd first List.not_mem_nil
  | cons head rest ih =>
    obtain ⟨rfl, ahead, following⟩ := following
    -- A time in a later piece comes behind the end of the first one.
    have later : ∀ r ∈ rest, r.1.Holds forward t → Precedes forward head.1.stop t :=
      fun r mem holds => (following.between.2 r mem).1.trans_precedes holds.behind
    rcases List.mem_cons.mp first with rfl | mem
    · rcases List.mem_cons.mp second with rfl | mem'
      · rfl
      · exact absurd held.reached (not_notAfter.mpr (later q mem' held'))
    · rcases List.mem_cons.mp second with rfl | mem'
      · exact absurd held'.reached (not_notAfter.mpr (later p mem held))
      · exact ih following mem mem'

end Following

/-- The accepted pieces of an unbroken trajectory follow one another. -/
theorem Unbroken.following {watches : List (Handler ω Rat × Settings Rat)} {t0 target : Rat} {y0 : State Rat}
    {j : Journal Rat} (unbroken : Unbroken watches forward t0 y0 target j.chain.links) :
    Following forward t0 j.pieces := by
  have opening : ∀ link ∈ j.chain.links.head?, link.piece.start = t0 := fun link mem => (unbroken.opening link mem).1
  have joined := unbroken.joined.imp fun link next leads => leads.1
  have advancing := unbroken.advancing
  have same := j.links_piece
  generalize j.chain.links = links at opening joined advancing same
  generalize j.pieces = pieces at same
  clear unbroken
  induction links generalizing t0 pieces with
  | nil =>
    cases pieces with
    | nil => trivial
    | cons p rest => cases same
  | cons link links ih =>
    cases pieces with
    | nil => cases same
    | cons p rest =>
      obtain ⟨first, others⟩ := List.cons.inj same
      obtain ⟨next, joined⟩ := List.isChain_cons.mp joined
      refine ⟨first ▸ opening link rfl, first ▸ advancing link List.mem_cons_self, ?_⟩
      exact ih (first ▸ next) joined (fun l mem => advancing l (List.mem_cons_of_mem link mem)) rest others

/-- The piece of the last link is the last piece. -/
theorem pieces_of_links {j : Journal Rat} {link : Link} (last : j.chain.links.getLast? = some link) :
    ∃ earlier flag, j.pieces = earlier ++ [(link.piece, flag)] := by
  have same := j.links_piece
  obtain ⟨links, ends⟩ := List.getLast?_eq_some_iff.mp last
  rw [ends, List.map_append] at same
  obtain empty | ⟨earlier, ⟨piece, flag⟩, whole⟩ := j.pieces.eq_nil_or_concat
  · rw [empty] at same
    simp at same
  · rw [List.concat_eq_append] at whole
    rw [whole, List.map_append] at same
    have pair := List.append_inj_right' same rfl
    exact ⟨earlier, flag, (List.cons.inj pair).1 ▸ whole⟩

/-- The accepted pieces of a run that returns are unbroken and lead to the point that it has reached. -/
theorem Engine.integrate_links [Spacing Rat] {e e' : Engine ω Rat} (usable : e.Usable) {equation : Equation ω Rat}
    {t0 target : Rat} {y0 y : State Rat} {w w' : ω}
    (ran : (integrate equation t0 y0 target).runFrom (e, w) = (.ok (t, y), e', w')) :
    Unbroken e.watches (decide (t0 ≤ target)) t0 y0 target e'.journal.chain.links ∧
      ∃ link, e'.journal.chain.links.getLast? = some link ∧ t = link.piece.stop ∧ link.Yields e.watches y := by
  obtain ⟨course, u, prepared, path, journal, _⟩ := integrate_path ran
  obtain ⟨directed, _, _, aim, _⟩ := prepare_ok usable prepared
  obtain ⟨unbroken, nonempty, reached, _⟩ := trailing_moves directed path rfl rfl
  rw [← directed.forward_eq, aim] at unbroken
  rw [journal]
  refine ⟨unbroken, ?_⟩
  rw [Reaches] at reached
  cases last : u.journal.chain.links.getLast? with
  | none => exact absurd (List.getLast?_eq_none_iff.mp last) nonempty
  | some link =>
    rw [last] at reached
    exact ⟨link, rfl, reached⟩

/-- The accepted pieces of a run that returns follow one another from its start to the time reached. -/
theorem Engine.integrate_following [Spacing Rat] {e e' : Engine ω Rat} (usable : e.Usable) {equation : Equation ω Rat}
    {t0 target : Rat} {y0 y : State Rat} {w w' : ω}
    (ran : (integrate equation t0 y0 target).runFrom (e, w) = (.ok (t, y), e', w')) :
    Following (decide (t0 ≤ target)) t0 e'.journal.pieces ∧ t = lastStop t0 e'.journal.pieces := by
  obtain ⟨unbroken, link, last, reached, _⟩ := integrate_links usable ran
  obtain ⟨earlier, flag, pieces⟩ := pieces_of_links last
  refine ⟨unbroken.following, ?_⟩
  rw [pieces, lastStop_concat]
  exact reached

/-- Rows for those of some times that a run from an initial point has reached, which ends at a given time after some
pieces. -/
structure Samples [Spacing Rat] (forward : Bool) (t0 : Rat) (y0 : State Rat) (T : Rat)
    (pieces : List (Window Rat × Bool)) (times : List Rat) (rows : List (Rat × State Rat)) : Prop where
  /-- There is a row for each of the times that do not lie beyond the end, in their order. -/
  times : rows.map Prod.fst = times.filter (NotAfter forward · T)
  /-- The state at the initial time is the initial one. -/
  initial : ∀ row ∈ rows, row.1 = t0 → row.2 = y0
  /-- The state at any other time is that of the one piece in which it lies. -/
  held : ∀ row ∈ rows, row.1 ≠ t0 → ∃ p ∈ pieces, p.1.Holds forward row.1 ∧ p.1.stateAt row.1 = .ok row.2 ∧
    ∀ q ∈ pieces, q.1.Holds forward row.1 → q.1 = p.1

/-- If the pieces answer with states of the shape of the initial one, the rows make a table. -/
theorem Samples.table [Spacing Rat] {t0 : Rat} {y0 : State Rat} {times : List Rat} {rows : List (Rat × State Rat)}
    (samples : Samples forward t0 y0 T pieces times rows) (begun : t0 ∈ times) (reached : NotAfter forward t0 T)
    (answering : ∀ p ∈ pieces, p.1.Answers forward y0.shape) :
    Table.ofRows rows = .ok ⟨rows.map Prod.fst, rows.map Prod.snd⟩ := by
  have shapes : ∀ row ∈ rows, row.2.shape = y0.shape := by
    intro row mem
    by_cases initial : row.1 = t0
    · rw [samples.initial row mem initial]
    · obtain ⟨p, handed, holds, answered, _⟩ := samples.held row mem initial
      obtain ⟨y, answered', sized⟩ := (answering p handed).answers row.1 holds.behind.notAfter holds.reached
      cases answered.symm.trans answered'
      exact sized
  have sampled : t0 ∈ rows.map Prod.fst := by
    rw [samples.times]
    exact List.mem_filter.mpr ⟨begun, decide_eq_true reached⟩
  exact Table.ofRows_uniform (fun empty => by rw [empty] at sampled; cases sampled) shapes

/-- The samples that are taken from pieces at times of which none is left up to the end of the pieces, behind those that
are the initial state. -/
theorem Samples.of_taken [Spacing Rat] {t0 : Rat} {y0 : State Rat} {new : List (Rat × State Rat)} {pending : List Rat}
    (following : Following forward t0 pieces) (beyond : Sampler.Ahead forward (lastStop t0 pieces) pending)
    (found : ∀ row ∈ new, ∃ p ∈ pieces, p.1.Holds forward row.1 ∧ p.1.stateAt row.1 = .ok row.2) (count : Nat) :
    Samples forward t0 y0 (lastStop t0 pieces) pieces (List.replicate count t0 ++ (new.map Prod.fst ++ pending))
      (List.replicate count (t0, y0) ++ new) := by
  obtain ⟨reached, inside⟩ := following.between
  have placed : ∀ row ∈ new, Precedes forward t0 row.1 ∧ NotAfter forward row.1 (lastStop t0 pieces) := by
    intro row mem
    obtain ⟨p, handed, holds, _⟩ := found row mem
    exact ⟨(inside p handed).1.trans_precedes holds.behind, holds.reached.trans (inside p handed).2⟩
  constructor
  · have unsampled : pending.filter (NotAfter forward · (lastStop t0 pieces)) = [] := by
      apply List.filter_eq_nil_iff.mpr
      intro r mem kept
      exact not_notAfter.mpr (beyond.behind r mem) (of_decide_eq_true kept)
    have all : (new.map Prod.fst).filter (NotAfter forward · (lastStop t0 pieces)) = new.map Prod.fst := by
      apply List.filter_eq_self.mpr
      intro r mem
      obtain ⟨row, sampled, rfl⟩ := List.mem_map.mp mem
      exact decide_eq_true (placed row sampled).2
    rw [List.filter_append, List.filter_append, unsampled, all, List.filter_replicate, if_pos (decide_eq_true reached),
      List.map_append, List.map_replicate, List.append_nil]
  · intro row mem same
    rcases List.mem_append.mp mem with mem | mem
    · rw [List.eq_of_mem_replicate mem]
    · exact absurd same.symm (placed row mem).1.ne
  · intro row mem other
    rcases List.mem_append.mp mem with mem | mem
    · exact absurd (congrArg Prod.fst (List.eq_of_mem_replicate mem)) other
    · obtain ⟨p, handed, holds, answered⟩ := found row mem
      exact ⟨p, handed, holds, answered, fun q handed' => following.unique handed handed' holds⟩

section

variable [Spacing Rat] {s : Sampler Rat} {o' : Observer ω Rat}

/-- A sampler that hears of pieces takes the states at its next times, as far as the pieces reach, each from a piece
in which the time lies. -/
theorem Observer.Hears.sampler (hears : Observer.Hears pieces (.sampler s) o')
    (following : Following s.forward a pieces) (ahead : Sampler.Ahead s.forward a s.pending) :
    ∃ s' new, o' = .sampler s' ∧ s'.rows = s.rows ++ new ∧ s.pending = new.map Prod.fst ++ s'.pending ∧
      Sampler.Ahead s.forward (lastStop a pieces) s'.pending ∧
      ∀ row ∈ new, ∃ p ∈ pieces, p.1.Holds s.forward row.1 ∧ p.1.stateAt row.1 = .ok row.2 := by
  induction pieces generalizing s a with
  | nil =>
    cases hears
    exact ⟨s, [], rfl, (List.append_nil _).symm, rfl, ahead, fun _ mem => absurd mem List.not_mem_nil⟩
  | cons p rest ih =>
    obtain ⟨rfl, _, following⟩ := following
    cases hears with
    | next told hears =>
      rw [Observer.runFrom_accept_sampler] at told
      obtain ⟨accepted, rfl, _⟩ := Prod.mk.inj told |>.imp_right Prod.mk.inj
      obtain ⟨direction, first, rows, times, ahead, held⟩ := Sampler.accept_rows ahead (Prod.ext accepted rfl)
      rw [← direction] at following ahead
      obtain ⟨s', new, rfl, samples, left, beyond, found⟩ := ih hears following ahead
      rw [direction] at beyond found
      refine ⟨s', first ++ new, rfl, ?_, ?_, beyond, fun row mem => ?_⟩
      · rw [samples, rows, List.append_assoc]
      · rw [times, left, List.map_append, List.append_assoc]
      · rcases List.mem_append.mp mem with mem | mem
        · exact ⟨_, List.mem_cons_self, held row mem⟩
        · obtain ⟨q, later, holds⟩ := found row mem
          exact ⟨q, List.mem_cons_of_mem _ later, holds⟩

/-- A sampler that attends a run, with its times in the order of the run, holds a row for each of the times that
the run has reached. -/
theorem Sampler.attends {t0 target : Rat} {y0 : State Rat} {times : List Rat}
    (attends : Observer.Attends t0 y0 target pieces (.sampler (.create times)) o')
    (following : Following (decide (t0 ≤ target)) t0 pieces)
    (ordered : (t0 :: times).Pairwise (NotAfter (decide (t0 ≤ target)))) :
    ∃ s', o' = .sampler s' ∧ Samples (decide (t0 ≤ target)) t0 y0 (lastStop t0 pieces) pieces times s'.rows := by
  obtain ⟨_, _, _, told, hears⟩ := attends
  cases told
  obtain ⟨s', new, rfl, samples, left, beyond, found⟩ := hears.sampler following (Sampler.ahead_start ordered)
  obtain ⟨count, rows, requested⟩ := Sampler.start_rows (.create times) t0 y0 target
  have whole : times = List.replicate count t0 ++ (new.map Prod.fst ++ s'.pending) := left ▸ requested
  refine ⟨s', rfl, ?_⟩
  rw [samples, rows, whole]
  exact .of_taken following beyond found count

/-- Every piece that a run accepts answers at all of its times, with states of the shape of the initial one. -/
theorem answering_move {course : Course ω Rat} {shape : Shape} {p q : Stage ω} {s s' : Session ω Rat}
    (gaps : ∀ x : Rat, 0 ≤ Spacing.ulp x) (move : Move course (p, s) (q, s')) (shown : p.Shows course.forward)
    (sized : p.Sized shape) (before : ∀ piece ∈ s.journal.pieces, piece.1.Answers course.forward shape) :
    ∀ piece ∈ s'.journal.pieces, piece.1.Answers course.forward shape := by
  rcases move.journal with same | ⟨entry, grown, writes⟩
  · rwa [same]
  · rw [grown, Journal.pieces_append]
    intro piece mem
    rcases List.mem_append.mp mem with earlier | new
    · exact before piece earlier
    · cases writes with
      | accepted =>
        rw [List.mem_singleton.mp new]
        exact shown.piece.answers gaps sized
      | _ => cases new

/-- If the right-hand side and the handlers answer for every state of the right size, every accepted piece answers at
all of its times. -/
theorem Engine.pieces_answer (gaps : ∀ x : Rat, 0 ≤ Spacing.ulp x) {e e' : Engine ω Rat} (usable : e.Usable)
    (implemented : e.stepper.scheme ≠ .abstract) {equation : Equation ω Rat} (total : equation.Total)
    (handlers : ∀ watch ∈ e.watches, watch.1.Total equation) {t0 target : Rat} {y0 y : State Rat} {w w' : ω}
    (ran : (integrate equation t0 y0 target).runFrom (e, w) = (.ok (t, y), e', w')) :
    ∀ p ∈ e'.journal.pieces, p.1.Answers (decide (t0 ≤ target)) y0.shape := by
  obtain ⟨course, u, prepared, path, journal, _⟩ := integrate_path ran
  obtain ⟨directed, same, stepper, aim, _⟩ := prepare_ok usable prepared
  have sound : course.Sound e.watches t0 y0 :=
    ⟨directed, same ▸ total, stepper ▸ implemented, same ▸ accepts_of_prepare prepared, same ▸ handlers⟩
  rw [journal, ← aim, directed.forward_eq]
  have all := path.preserve
    (P := fun p s => p.OnRoute course e.watches t0 s.monitor ∧ p.Shows course.forward ∧ p.Sized y0.shape ∧
      ∀ q ∈ s.journal.pieces, q.1.Answers course.forward y0.shape)
    ⟨⟨rfl, rfl⟩, trivial, rfl, fun _ mem => absurd mem List.not_mem_nil⟩
    fun p s q s' ⟨route, shown, sized, answering⟩ move =>
      ⟨onRoute_move directed move route, shows_move gaps directed move route shown,
        sized_move sound move route shown sized, answering_move gaps move shown sized answering⟩
  exact all.2.2.2

end

end Trajectory
