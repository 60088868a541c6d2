import Mathlib.Tactic
import Trajectory.Proofs.Listening
import Trajectory.Proofs.Sampling
import Trajectory.Proofs.Timer

/-!
What a normalizer reports of a whole run.

The callback of a normalizer may keep a log of its calls (`Normalizer.Logs`). While the normalizer hears of a piece,
its log grows by the grid points in the piece, with the states there (`report_reports`). From piece to piece the grid
goes on where it was left, and no piece reaches beyond the next grid point (`Normalizer.Abreast`), so that behind the
last piece the log holds the grid up to the end of the run, and the end itself once (`Abreast.regular`). The times in
the log are therefore those of the grid and of the end, whatever the pieces are (`Normalizer.Regular.times`).
-/

namespace Trajectory

open Effect

variable {ω : Type} {forward : Bool} {pieces : List (Window Rat × Bool)}

namespace Normalizer

/-- What a normalizer calls its callback with. -/
structure Report where
  t : Rat
  y : State Rat
  /-- Whether the run ends there. -/
  last : Bool
deriving DecidableEq

/-- A normalizer whose callback keeps a log of its calls, however they end. -/
def Logs (heard : ω → List Report) (n : Normalizer ω Rat) : Prop :=
  ∀ t y last w, heard ((n.callback t y last).runFrom w).2 = heard w ++ [⟨t, y, last⟩]

/-- A grid point of a run: from its start, so many spacings in its direction. -/
def point (forward : Bool) (spacing t0 : Rat) (k : Nat) : Rat := t0 + k * (runSign forward * spacing)

/-- The number of grid points between the start and the end of a run. -/
def points (forward : Bool) (spacing t0 T : Rat) : Nat := ⌊runSign forward * (T - t0) / spacing⌋₊

/-- The report on the end of a run whose last grid point is given, if it is not that point. -/
def closing (t T : Rat) (y : State Rat) : List Report := if t = T then [] else [⟨T, y, true⟩]

/-- Reports on a run from an initial point to a time, with some accepted pieces. -/
structure Regular [Spacing Rat] (forward : Bool) (spacing t0 : Rat) (y0 : State Rat) (T : Rat)
    (pieces : List (Window Rat × Bool)) (reports : List Report) : Prop where
  /-- The grid points that are counted are those that do not lie beyond the end. -/
  reach : ∀ k, k ≤ points forward spacing t0 T ↔ NotAfter forward (point forward spacing t0 k) T
  /-- The reports are on the start, on the grid points up to the end, and on the end if it is no grid point. -/
  times : reports.map Report.t = (List.range (points forward spacing t0 T + 1)).map (point forward spacing t0) ++
    if point forward spacing t0 (points forward spacing t0 T) = T then [] else [T]
  /-- The first one tells the initial state. -/
  initial : reports.head? = some ⟨t0, y0, false⟩
  /-- The last one, and no other, says that the run ends. -/
  final : ∃ earlier report, reports = earlier ++ [report] ∧ report.last = true ∧ ∀ r ∈ earlier, r.last = false
  /-- Every other one tells the state of the one piece in which its time lies. -/
  held : ∀ r ∈ reports.tail, ∃ p ∈ pieces, p.1.Holds forward r.t ∧ p.1.stateAt r.t = .ok r.y ∧
    ∀ q ∈ pieces, q.1.Holds forward r.t → q.1 = p.1

section

variable {n n' n₀ : Normalizer ω Rat} {heard : ω → List Report} {w w' : ω} {spacing t0 T : Rat} {k : Nat}

theorem point_key : runSign forward * point forward spacing t0 k = runSign forward * t0 + k * spacing := by
  rw [point]
  linear_combination (k * spacing) * runSign_mul_self

/-- Of the grid, the counted points are those that do not lie beyond the end. -/
theorem le_points_iff (spaced : 0 < spacing) (ahead : NotAfter forward t0 T) :
    k ≤ points forward spacing t0 T ↔ NotAfter forward (point forward spacing t0 k) T := by
  rw [notAfter_iff_sign] at ahead
  have length : 0 ≤ runSign forward * (T - t0) / spacing := div_nonneg (by linarith) spaced.le
  rw [points, Nat.le_floor_iff length, le_div_iff₀ spaced, notAfter_iff_sign, point_key]
  constructor <;> intro within <;> linarith

theorem gridPoint_begun {target : Rat} (spaced : 0 < n.spacing) :
    (n.begun t0 target).gridPoint = point (decide (t0 ≤ target)) n.spacing t0 := by
  funext k
  rw [gridPoint, (spaced_begun spaced).along, Scalar.ofNat_rat]
  rfl

theorem lastTime_begun {target : Rat} :
    (n.begun t0 target).lastTime = some ((n.begun t0 target).gridPoint (n.begun t0 target).count) := by
  simp [gridPoint, begun]

/-- A normalizer remembers the last point of its grid. -/
theorem lastTime_moved (last : n.lastTime = some (n.gridPoint n.count)) :
    (n.moved k).lastTime = some (n.gridPoint (n.count + k)) := by
  cases k with
  | zero => exact last
  | succ k => rfl

variable [Spacing Rat] {piece : Window Rat} {last : Bool}

/-- Reports on so many further points of the grid of a normalizer, in a piece. -/
structure Served (forward : Bool) (n : Normalizer ω Rat) (piece : Window Rat) (last : Bool) (k : Nat)
    (reports : List Report) : Prop where
  times : reports.map Report.t = (List.range' (n.count + 1) k).map n.gridPoint
  held : ∀ r ∈ reports, piece.Holds forward r.t ∧ piece.stateAt r.t = .ok r.y
  flags : ∀ r ∈ reports, r.last = (last && r.t == piece.stop)

/-- The reports on a piece are on the further grid points in it. -/
theorem report_reports (logs : n.Logs heard) (grid : n.Spaced forward) (ahead : Precedes forward piece.start n.next)
    {rounds : Nat} (ran : (report piece last rounds).runFrom (n, w) = (.ok (), n', w')) :
    ∃ k reports, n' = n.moved k ∧ Precedes forward piece.stop n'.next ∧ heard w' = heard w ++ reports ∧
      Served forward n piece last k reports := by
  induction rounds generalizing n w with
  | zero =>
    rw [report, Effect.runFrom_throw] at ran
    cases ran
  | succ rounds ih =>
    by_cases beyond : n.beyond n.next piece.stop = true
    · rw [report_beyond beyond] at ran
      cases ran
      have vacuous {P : Report → Prop} : ∀ r ∈ [], P r := fun _ mem => absurd mem List.not_mem_nil
      exact ⟨0, [], rfl, grid.beyond_iff.mp beyond, (List.append_nil _).symm, rfl, vacuous, vacuous⟩
    · rw [report_round beyond] at ran
      obtain ⟨y, _, lifted, ran⟩ := Effect.runFrom_bind_ok.mp ran
      obtain ⟨answered, rfl⟩ := Effect.runFrom_lift_iff.mp lifted
      obtain ⟨_, _, inner, ran⟩ := Effect.runFrom_bind_ok.mp ran
      obtain ⟨v, called, rfl⟩ := Effect.runFrom_within_ok.mp inner
      have reached : NotAfter forward n.next piece.stop := not_precedes.mp (grid.beyond_iff.not.mp beyond)
      have told := logs n.next y (last && n.next == piece.stop) w
      rw [called] at told
      obtain ⟨k, reports, moved, next', grown, served⟩ :=
        ih (n := n.moved 1) logs (grid.moved 1) (ahead.trans grid.precedes_next) ran
      rw [moved_moved, Nat.add_comm 1 k] at moved
      refine ⟨k + 1, ⟨n.next, y, last && n.next == piece.stop⟩ :: reports, moved, next', ?_, ?_, ?_, ?_⟩
      · rw [grown, told, List.append_assoc, List.singleton_append]
      · rw [List.map_cons, served.times, List.range'_succ, List.map_cons]
        rfl
      · exact List.forall_mem_cons.mpr ⟨⟨⟨ahead, reached⟩, answered⟩, served.held⟩
      · exact List.forall_mem_cons.mpr ⟨rfl, served.flags⟩

/-- The report on the end of a run comes behind those on the grid, if the end is not among them. -/
theorem accept_reports (logs : n.Logs heard) (grid : n.Spaced forward) (ahead : Precedes forward piece.start n.next)
    (begun : n.lastTime = some (n.gridPoint n.count))
    (ran : (accept piece last).runFrom (n, w) = (.ok (), n', w')) :
    ∃ k reports, Precedes forward piece.stop (n.moved k).next ∧ Served forward n piece last k reports ∧
      heard w' = heard w ++ (reports ++
        if last then closing (n.gridPoint (n.count + k)) piece.stop piece.yStop else []) ∧
      (last = false → n' = n.moved k) := by
  rw [runFrom_accept] at ran
  obtain ⟨_, ⟨m, v⟩, reported, ran⟩ := Effect.runFrom_bind_ok.mp ran
  obtain ⟨k, reports, rfl, ahead', grown, served⟩ := report_reports logs grid ahead reported
  refine ⟨k, reports, ahead', served, ?_⟩
  have told := logs piece.stop piece.yStop true v
  have closes : (n.moved k).reportedAt piece.stop = decide (n.gridPoint (n.count + k) = piece.stop) := by
    rw [reportedAt, lastTime_moved begun]
    rfl
  rw [runFrom_reportEnd, closes] at ran
  cases last with
  | false =>
    cases ran
    exact ⟨by rw [grown, if_neg Bool.false_ne_true, List.append_nil], fun _ => rfl⟩
  | true =>
    refine ⟨?_, fun silent => by cases silent⟩
    rw [if_pos rfl, closing, ← List.append_assoc, ← grown]
    by_cases ends : n.gridPoint (n.count + k) = piece.stop
    · simp only [ends, decide_true, Bool.not_true, Bool.and_false, Bool.false_eq_true, if_false] at ran
      cases ran
      rw [if_pos ends, List.append_nil]
    · simp only [ends, decide_false, Bool.not_false, Bool.and_true, if_true] at ran
      rw [if_neg ends, ← (Prod.mk.inj (Prod.mk.inj ran).2).2]
      exact told

/-- A normalizer that has come, with its reports behind the start of a run, to the end of some pieces; the last of
them may be the last one of the run. -/
structure Abreast (forward : Bool) (t0 : Rat) (n₀ : Normalizer ω Rat) (pieces : List (Window Rat × Bool)) (last : Bool)
    (k : Nat) (reports : List Report) : Prop where
  ahead : Precedes forward (lastStop t0 pieces) (n₀.moved k).next
  times : reports.map Report.t = (List.range' (n₀.count + 1) k).map n₀.gridPoint
  held : ∀ r ∈ reports, ∃ p ∈ pieces, p.1.Holds forward r.t ∧ p.1.stateAt r.t = .ok r.y
  flags : ∀ r ∈ reports, r.last = (last && r.t == lastStop t0 pieces)

/-- With the next piece a normalizer comes to its end. -/
theorem Abreast.accept {reports : List Report} (abreast : Abreast forward t0 n₀ pieces false k reports)
    (logs : n₀.Logs heard) (grid : n₀.Spaced forward) (begun : n₀.lastTime = some (n₀.gridPoint n₀.count))
    (following : Following forward t0 (pieces ++ [(piece, last)]))
    (ran : (Normalizer.accept piece last).runFrom (n₀.moved k, w) = (.ok (), n', w')) :
    ∃ l new, Abreast forward t0 n₀ (pieces ++ [(piece, last)]) last l (reports ++ new) ∧
      heard w' = heard w ++ (new ++ if last then closing (n₀.gridPoint (n₀.count + l)) piece.stop piece.yStop else []) ∧
      (last = false → n' = n₀.moved l) := by
  obtain ⟨before, joined, leads⟩ := following.init
  obtain ⟨l, new, ahead, served, ends⟩ := accept_reports (n := n₀.moved k) logs (grid.moved k)
    (joined ▸ abreast.ahead) (lastTime_moved begun) ran
  have place : (n₀.moved k).count + l = n₀.count + (k + l) := Nat.add_assoc _ _ _
  rw [place, moved_moved] at ends
  rw [moved_moved] at ahead
  refine ⟨k + l, new, ⟨?_, ?_, ?_, ?_⟩, ends⟩
  · rw [lastStop_concat]
    exact ahead
  · rw [List.map_append, abreast.times, served.times, ← List.range'_append_1, List.map_append, Nat.add_right_comm]
    rfl
  · intro r mem
    rcases List.mem_append.mp mem with earlier | later
    · obtain ⟨p, handed, holds⟩ := abreast.held r earlier
      exact ⟨p, List.mem_append_left _ handed, holds⟩
    · exact ⟨_, List.mem_append_right _ List.mem_cons_self, served.held r later⟩
  · rw [lastStop_concat]
    intro r mem
    rcases List.mem_append.mp mem with earlier | later
    · obtain ⟨p, handed, holds, _⟩ := abreast.held r earlier
      -- an earlier report lies in an earlier piece, and so before the end of this one
      have short : NotAfter forward r.t piece.start :=
        joined ▸ holds.reached.trans (before.between.2 p handed).2
      rw [abreast.flags r earlier, beq_false_of_ne (short.trans_precedes leads).ne, Bool.and_false, Bool.false_and]
    · exact served.flags r later

/-- No grid point that has been reported lies beyond the end of the pieces. -/
theorem Abreast.reached {reports : List Report} (abreast : Abreast forward t0 n₀ pieces last k reports)
    (following : Following forward t0 pieces) (begun : n₀.gridPoint n₀.count = t0) :
    NotAfter forward (n₀.gridPoint (n₀.count + k)) (lastStop t0 pieces) := by
  cases k with
  | zero => exact begun.symm ▸ following.between.1
  | succ k =>
    have reported : n₀.gridPoint (n₀.count + (k + 1)) ∈ reports.map Report.t := by
      rw [abreast.times]
      exact List.mem_map_of_mem (List.mem_range'_1.mpr (by omega))
    obtain ⟨r, mem, same⟩ := List.mem_map.mp reported
    obtain ⟨p, among, holds, _⟩ := abreast.held r mem
    exact same ▸ holds.reached.trans (following.between.2 p among).2

omit [Spacing Rat] in
theorem precedes_point (spaced : 0 < spacing) {j : Nat} (before : j < k) :
    Precedes forward (point forward spacing t0 j) (point forward spacing t0 k) := by
  have further : (j : Rat) * spacing < k * spacing := mul_lt_mul_of_pos_right (by exact_mod_cast before) spaced
  rw [precedes_iff_sign, point_key, point_key]
  linarith

omit [Spacing Rat] in
/-- The end of a run comes last among the times of the reports, and only there. -/
theorem times_end (spaced : 0 < spacing) (reached : NotAfter forward (point forward spacing t0 k) T) :
    ∃ front, ((List.range (k + 1)).map (point forward spacing t0) ++
      if point forward spacing t0 k = T then [] else [T]) = front ++ [T] ∧ T ∉ front := by
  by_cases closes : point forward spacing t0 k = T
  · refine ⟨(List.range k).map (point forward spacing t0), ?_, fun mem => ?_⟩
    · rw [if_pos closes, List.append_nil, List.range_succ, List.map_append, List.map_singleton, closes]
    · obtain ⟨j, below, same⟩ := List.mem_map.mp mem
      exact (precedes_point spaced (List.mem_range.mp below)).ne (same.trans closes.symm)
  · refine ⟨(List.range (k + 1)).map (point forward spacing t0), by rw [if_neg closes], fun mem => ?_⟩
    obtain ⟨j, below, same⟩ := List.mem_map.mp mem
    rcases Nat.lt_succ_iff_lt_or_eq.mp (List.mem_range.mp below) with before | rfl
    · exact ((precedes_point spaced before).trans_notAfter reached).ne same
    · exact closes same

omit [Spacing Rat] in
/-- If reports say that a run ends exactly at a time, and that time comes last and only once, then only the last one
says so. -/
theorem final_of_flags {reports : List Report} {front : List Rat} (flags : ∀ r ∈ reports, r.last = (r.t == T))
    (ends : reports.map Report.t = front ++ [T]) (once : T ∉ front) :
    ∃ earlier report, reports = earlier ++ [report] ∧ report.last = true ∧ ∀ r ∈ earlier, r.last = false := by
  obtain ⟨earlier, others, rfl, rfl, last⟩ := List.map_eq_append_iff.mp ends
  obtain ⟨report, rfl, rfl⟩ := List.map_eq_singleton_iff.mp last
  refine ⟨earlier, report, rfl, ?_, fun r mem => ?_⟩
  · rw [flags report (List.mem_append_right _ List.mem_cons_self), beq_self_eq_true]
  · rw [flags r (List.mem_append_left _ mem)]
    exact beq_false_of_ne fun same => once (same ▸ List.mem_map_of_mem mem)

omit [Spacing Rat] in
theorem forall_closing {P : Report → Prop} {t : Rat} {y : State Rat} (ends : P ⟨T, y, true⟩) :
    ∀ r ∈ closing t T y, P r := by
  rw [closing]
  split
  · exact nofun
  · exact List.forall_mem_singleton.mpr ends

/-- At the end of a run the reports on its start, on the grid and on the end are regular. -/
theorem Abreast.regular (gaps : ∀ x : Rat, 0 ≤ Spacing.ulp x) {y0 : State Rat} {reports : List Report}
    (abreast : Abreast forward t0 n₀ (pieces ++ [(piece, true)]) true k reports) (spaced : 0 < spacing)
    (first : n₀.count = 0) (grid : n₀.gridPoint = point forward spacing t0)
    (following : Following forward t0 (pieces ++ [(piece, true)])) :
    Regular forward spacing t0 y0 piece.stop (pieces ++ [(piece, true)])
      (⟨t0, y0, false⟩ :: reports ++ closing (point forward spacing t0 k) piece.stop piece.yStop) := by
  have begun : point forward spacing t0 0 = t0 := by simp [point]
  have leads : Precedes forward t0 piece.stop := following.leads
  have reached := abreast.reached following (by rw [first, grid, begun])
  obtain ⟨ahead, times, held, flags⟩ := abreast
  have next : (n₀.moved k).next = n₀.gridPoint (n₀.count + k + 1) := rfl
  rw [next] at ahead
  rw [first, grid, Nat.zero_add] at times ahead reached
  rw [lastStop_concat] at ahead flags reached
  have reach (j : Nat) := le_points_iff (k := j) spaced leads.notAfter
  -- the grid point that has been reported last is the last one up to the end
  have count : points forward spacing t0 piece.stop = k := by
    have least := (reach k).mpr reached
    have most := (reach (k + 1)).not.mpr (not_notAfter.mpr ahead)
    omega
  have all : (⟨t0, y0, false⟩ :: reports ++
      closing (point forward spacing t0 k) piece.stop piece.yStop).map Report.t =
        (List.range (k + 1)).map (point forward spacing t0) ++
          if point forward spacing t0 k = piece.stop then [] else [piece.stop] := by
    rw [List.map_append, List.map_cons, times, List.range_eq_range', List.range'_succ, List.map_cons, begun, closing]
    split <;> rfl
  refine ⟨reach, count.symm ▸ all, rfl, ?_, ?_⟩
  · -- a report says that the run ends exactly if it is on the end
    obtain ⟨front, ends, once⟩ := times_end spaced reached
    refine final_of_flags (List.forall_mem_append.mpr ⟨?_, forall_closing (beq_self_eq_true _).symm⟩)
      (all.trans ends) once
    exact List.forall_mem_cons.mpr ⟨(beq_false_of_ne leads.ne).symm, flags⟩
  · have handed : (piece, true) ∈ pieces ++ [(piece, true)] := List.mem_append_right _ List.mem_cons_self
    have advances := following.advancing _ handed
    have found : ∀ r ∈ reports ++ closing (point forward spacing t0 k) piece.stop piece.yStop,
        ∃ p ∈ pieces ++ [(piece, true)], p.1.Holds forward r.t ∧ p.1.stateAt r.t = .ok r.y :=
      List.forall_mem_append.mpr ⟨held, forall_closing
        ⟨_, handed, ⟨advances, .refl⟩, Window.stateAt_stop_ok gaps advances⟩⟩
    intro r mem
    obtain ⟨p, among, holds, answered⟩ := found r mem
    exact ⟨p, among, holds, answered, fun q among' holds' => following.unique among among' holds holds'⟩

end

end Normalizer

section

variable [Spacing Rat] {n : Normalizer ω Rat} {heard : ω → List Normalizer.Report} {t0 target : Rat} {y0 : State Rat}
  {log : List Normalizer.Report} {b : Observer ω Rat × List Normalizer.Report}

/-- A normalizer that listens to the start of a run and to pieces of which none is the last one reports on the start and
on the grid up to the end of the pieces. -/
theorem Observer.Listens.normalizer (logs : n.Logs heard) (spaced : 0 < n.spacing)
    (listens : Observer.Listens heard t0 y0 target (.normalizer n, log) pieces b)
    (following : Following (decide (t0 ≤ target)) t0 pieces) (unflagged : ∀ p ∈ pieces, p.2 = false) :
    ∃ k reports, b = (.normalizer ((n.begun t0 target).moved k), log ++ ⟨t0, y0, false⟩ :: reports) ∧
      (n.begun t0 target).Abreast (decide (t0 ≤ target)) t0 pieces false k reports := by
  induction listens with
  | started told =>
    obtain ⟨w, w', rfl, ran, grown⟩ := told
    rw [runFrom_start_normalizer, Normalizer.runFrom_start] at ran
    obtain ⟨_, turned, rfl⟩ := Prod.mk.inj ran |>.imp_right Prod.mk.inj
    rw [logs] at grown
    refine ⟨0, [], Prod.ext turned.symm grown.symm, ?_, rfl, nofun, nofun⟩
    exact (Normalizer.spaced_begun spaced).precedes_begun
  | @heard pieces piece last b c before told ih =>
    obtain ⟨k, reports, rfl, abreast⟩ := ih following.init.1 fun p mem => unflagged p (List.mem_append_left _ mem)
    obtain rfl : last = false := unflagged _ (List.mem_append_right _ List.mem_cons_self)
    obtain ⟨w, w', same, ran, grown⟩ := told
    rw [runFrom_accept_normalizer] at ran
    obtain ⟨accepted, turned, rfl⟩ := Prod.mk.inj ran |>.imp_right Prod.mk.inj
    obtain ⟨l, new, abreast', told, moved⟩ := abreast.accept logs (Normalizer.spaced_begun spaced)
      Normalizer.lastTime_begun following (Prod.ext accepted rfl)
    refine ⟨l, reports ++ new, Prod.ext (turned.symm.trans (congrArg _ (moved rfl))) ?_, abreast'⟩
    rw [← grown, told, same, if_neg Bool.false_ne_true, List.append_nil, List.append_assoc, List.cons_append]

/-- A normalizer that listens to a whole run makes regular reports on it. -/
theorem Observer.Listens.regular (gaps : ∀ x : Rat, 0 ≤ Spacing.ulp x) (logs : n.Logs heard) (spaced : 0 < n.spacing)
    {piece : Window Rat}
    (listens : Observer.Listens heard t0 y0 target (.normalizer n, log) (pieces ++ [(piece, true)]) b)
    (following : Following (decide (t0 ≤ target)) t0 (pieces ++ [(piece, true)]))
    (unflagged : ∀ p ∈ pieces, p.2 = false) :
    ∃ reports, b.2 = log ++ reports ∧ Normalizer.Regular (decide (t0 ≤ target)) n.spacing t0 y0 piece.stop
      (pieces ++ [(piece, true)]) reports := by
  obtain ⟨c, before, w, w', same, ran, grown⟩ := listens.init
  obtain ⟨k, reports, rfl, abreast⟩ := before.normalizer logs spaced following.init.1 unflagged
  rw [runFrom_accept_normalizer] at ran
  obtain ⟨accepted, _, rfl⟩ := Prod.mk.inj ran |>.imp_right Prod.mk.inj
  obtain ⟨l, new, abreast', told, _⟩ := abreast.accept logs (Normalizer.spaced_begun spaced)
    Normalizer.lastTime_begun following (Prod.ext accepted rfl)
  have grid : (n.begun t0 target).gridPoint = Normalizer.point (decide (t0 ≤ target)) n.spacing t0 :=
    Normalizer.gridPoint_begun spaced
  have first : (n.begun t0 target).count = 0 := rfl
  refine ⟨_, ?_, abreast'.regular gaps spaced first grid following⟩
  rw [← grown, told, same, if_pos rfl, grid, first, Nat.zero_add]
  simp only [List.append_assoc, List.cons_append]

end

/-- In a run that returns, at whatever time, a normalizer makes regular reports on the run up to that time. -/
theorem Engine.integrate_reports [Spacing Rat] (gaps : ∀ x : Rat, 0 ≤ Spacing.ulp x) {e e' : Engine ω Rat}
    (usable : e.Usable) {equation : Equation ω Rat} {heard : ω → List Normalizer.Report} {place : Nat}
    {n : Normalizer ω Rat} (alone : e.Alone equation heard place (.normalizer n)) (spaced : 0 < n.spacing)
    (logs : n.Logs heard) {t0 target T : Rat} {y0 y : State Rat} {w w' : ω}
    (ran : (integrate equation t0 y0 target).runFrom (e, w) = (.ok (T, y), e', w')) :
    ∃ reports, heard w' = heard w ++ reports ∧
      Normalizer.Regular (decide (t0 ≤ target)) n.spacing t0 y0 T e'.journal.pieces reports := by
  obtain ⟨o, listens⟩ := integrate_listens usable alone ran
  obtain ⟨following, _⟩ := integrate_following usable ran
  obtain ⟨earlier, final, whole, unflagged, rfl⟩ := integrate_final ran
  rw [whole] at listens following ⊢
  exact listens.regular gaps logs spaced following unflagged

/-- One unknown that grows at a steady rate, for callers with a log of reports. -/
def Equation.gridded : Equation (List Normalizer.Report) Rat where
  eval _ _ := pure (.ofList [1])
  onCompile := pure ()
  compiled _ _ := .ok (.ofList [1])
  dimension := 1
  label := "gridded"

/-- A normalizer that only logs its reports. -/
def Normalizer.logging (spacing : Rat) : Normalizer (List Report) Rat where
  spacing := spacing
  callback t y last := modify (· ++ [⟨t, y, last⟩])
  t0 := 0
  count := 0
  signedSpacing := spacing
  lastTime := none

/-- An engine with a timer inside its only step and one that stops the run, and with a normalizer. -/
def Engine.gridded : Engine (List Normalizer.Report) Rat where
  stepper := ⟨.euler, false⟩
  stepSize := 1
  maxSteps := 100
  watches := [(1 / 2, .carryOn), (4 / 5, .stop)].map fun (c, action) =>
    ((SwitchingFunction.timer c action (.ofList [0])).toHandler, ⟨none, 1 / 100, 100, none⟩)
  observers := [.normalizer (.logging (3 / 10))]
  status := none
  evaluations := 0
  accepted := 0
  journal := []

/-- The reports on a run that is cut by an event and stopped off the grid. -/
theorem Engine.gridded_reports :
    letI := Spacing.gapless
    let run := (integrate .gridded 0 (.ofList [0]) 1).runFrom (gridded, [])
    run.1 = .ok (4 / 5, .ofList [4 / 5]) ∧
      run.2.2 = [⟨0, .ofList [0], false⟩, ⟨3 / 10, .ofList [3 / 10], false⟩, ⟨3 / 5, .ofList [3 / 5], false⟩,
        ⟨4 / 5, .ofList [4 / 5], true⟩] ∧
      Normalizer.Regular true (3 / 10) 0 (.ofList [0]) (4 / 5) run.2.1.journal.pieces run.2.2 := by
  let := Spacing.gapless
  intro run
  have silent {β : Type} (b : β) : (pure b : Effect (List Normalizer.Report) Rat β).Leaves id := fun _ => rfl
  have usable : gridded.Usable := by
    refine ⟨one_ne_zero, fun watch mem => ?_⟩
    obtain ⟨_, _, rfl⟩ := List.mem_map.mp mem
    have valid : (⟨none, 1 / 100, 100, none⟩ : Settings Rat).valid = true := by decide +kernel
    exact valid
  have alone : gridded.Alone .gridded id 0 (.normalizer (.logging (3 / 10))) := by
    refine ⟨⟨fun _ _ => silent _, silent _⟩, fun watch mem => ?_, .here fun _ mem => ?_⟩
    · obtain ⟨_, _, rfl⟩ := List.mem_map.mp mem
      exact ⟨fun _ _ _ => silent _, fun _ _ => silent _, fun _ _ _ => silent _, fun _ _ => silent _⟩
    · cases mem
  have returned : run.1 = .ok (4 / 5, .ofList [4 / 5]) := by decide +kernel
  obtain ⟨reports, logged, regular⟩ := integrate_reports (fun _ => le_rfl) usable alone (by decide +kernel)
    (fun _ _ _ _ => rfl) (Prod.ext returned rfl)
  have same : run.2.2 = reports := logged
  refine ⟨returned, by decide +kernel, ?_⟩
  rw [same]
  exact regular

end Trajectory
