import Mathlib.Tactic
import Trajectory.Scalar.Exact
import Trajectory.Scalar.Real
import Trajectory.State

/-!
States with one axis as vectors, and their arithmetic where nothing is flushed.
-/

namespace Trajectory.Tensor

variable {α : Type} {n : Nat}

/-- The array with one axis whose entries are those of a vector. -/
def ofVec (v : Fin n → α) : Tensor α := .ofList (List.ofFn v)

section

variable (v : Fin n → α)

@[simp] theorem shape_ofVec : (ofVec v).shape = [n] := by simp [ofVec]

@[simp] theorem entries_ofVec : (ofVec v).entries = List.ofFn v := rfl

theorem map_ofVec (f : α → α) : (ofVec v).map f = ofVec (f ∘ v) :=
  Tensor.ext (by simp) List.map_ofFn

theorem ofVec_injective : Function.Injective (ofVec : (Fin n → α) → Tensor α) :=
  fun _ _ same => List.ofFn_injective (congrArg Tensor.entries same)

end

@[simp] theorem ofVec_add (v w : Fin n → Rat) : ofVec v + ofVec w = ofVec (v + w) := by
  have shape : (ofVec v).shape = (ofVec w).shape := by simp
  refine Tensor.ext (by rw [shape_add shape]; simp) ?_
  rw [entries_add shape]
  apply List.ext_getElem <;> simp

@[simp] theorem smul_ofVec (c : Rat) (v : Fin n → Rat) : c * ofVec v = ofVec (c • v) := map_ofVec v _

theorem smul_ofVec_real (c : ℝ) (v : Fin n → ℝ) : c * ofVec v = ofVec (c • v) := map_ofVec v _

theorem neg_ofVec_real (v : Fin n → ℝ) : -ofVec v = ofVec (-v) := map_ofVec v _

end Trajectory.Tensor
