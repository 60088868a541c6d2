import Trajectory.Error
import Trajectory.Tensor

/-!
States of a system of equations.

A run goes along states with one axis, one entry for each unknown; single steps, dense output and observers take
arrays of any shape. Formulas with several states are evaluated in the order in which they are written, so the
first pair that does not fit together decides which error is reported.
-/

namespace Trajectory

/-- The unknowns of a first-order system at one time. -/
abbrev State (α : Type) : Type := Tensor α

variable {α : Type}

/-- The joint shape of two shapes. -/
def Shape.joined (s t : Shape) : Except (Error α) Shape :=
  match Shape.join? s t with
  | some u => .ok u
  | none => .error (if s.length = t.length then .extents else .axes)

@[simp] theorem Shape.joined_self (s : Shape) : (Shape.joined s s : Except (Error α) Shape) = .ok s := by
  simp [Shape.joined]

/-- The joint shape of states that are combined from left to right. -/
def jointShape (ys : List (State α)) : Except (Error α) Shape :=
  ys.foldlM (fun s y => s.joined y.shape) []

/-- Succeeds if states can be combined from left to right. -/
def requireFit (ys : List (State α)) : Except (Error α) Unit := do
  let _ ← jointShape ys

/-- The entry of a state with one axis. -/
def Tensor.entry (y : State α) (i : Nat) : Except (Error α) α :=
  match y.shape with
  | [] => .error .noEntry
  | [_] =>
    match y.entries[i]? with
    | some x => .ok x
    | none => .error .noEntry
  | n :: _ :: _ => .error (if i < n then .notNumber else .noEntry)

private theorem foldlM_joined {s : Shape} {ys : List (State α)} (h : ∀ y ∈ ys, y.shape = s) :
    ys.foldlM (fun s y => s.joined y.shape) s = (.ok s : Except (Error α) Shape) := by
  induction ys with
  | nil => rfl
  | cons y ys ih =>
    have first : y.shape = s := h y List.mem_cons_self
    rw [List.foldlM_cons, first, Shape.joined_self]
    exact ih fun z mem => h z (List.mem_cons_of_mem y mem)

/-- The joint shape of states of one shape is that shape. -/
theorem jointShape_of_shape {s : Shape} {y : State α} {ys : List (State α)} (h : ∀ z ∈ y :: ys, z.shape = s) :
    jointShape (y :: ys) = .ok s := by
  have first : (Shape.joined [] y.shape : Except (Error α) Shape) = .ok s := by
    simp [Shape.joined, h y List.mem_cons_self]
  rw [jointShape, List.foldlM_cons, first]
  exact foldlM_joined fun z mem => h z (List.mem_cons_of_mem y mem)

/-- States of one shape fit together. -/
theorem requireFit_of_shape {s : Shape} {ys : List (State α)} (h : ∀ y ∈ ys, y.shape = s) :
    requireFit ys = .ok () := by
  match ys, h with
  | [], _ => rfl
  | y :: ys, h => rw [requireFit, jointShape_of_shape h]; rfl

end Trajectory
