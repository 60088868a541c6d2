import Trajectory.Scalar
import Trajectory.Tensor.Shape

/-!
Arrays of scalars with any number of axes and entrywise arithmetic.

The entries are listed with the index along the last axis varying fastest, and there are as many of them as the
shape asks for. Arrays of one shape combine entry by entry; arrays of two shapes that fit together combine as if
each were repeated along the axes on which the other is larger.

The arithmetic flushes: numbers too small to be held with full precision count as zero, as operands and as results.
Reversing the sign and copying entries leave them as they are.
-/

namespace Trajectory

/-- An array of scalars. -/
@[ext]
structure Tensor (α : Type) where
  /-- The extents along the axes. -/
  shape : Shape
  /-- The entries, the index along the last axis varying fastest. -/
  entries : List α
  length_entries : entries.length = shape.size
deriving DecidableEq

namespace Tensor

variable {α : Type}

/-- The array with one axis and given entries. -/
def ofList (xs : List α) : Tensor α := ⟨[xs.length], xs, by simp⟩

@[simp] theorem shape_ofList (xs : List α) : (ofList xs).shape = [xs.length] := rfl

@[simp] theorem entries_ofList (xs : List α) : (ofList xs).entries = xs := rfl

/-- The array of a shape whose entries are given by their places. -/
def tabulate (s : Shape) (f : Nat → α) : Tensor α :=
  ⟨s, (List.range s.size).map f, by simp⟩

@[simp] theorem shape_tabulate (s : Shape) (f : Nat → α) : (tabulate s f).shape = s := rfl

@[simp] theorem entries_tabulate (s : Shape) (f : Nat → α) :
    (tabulate s f).entries = (List.range s.size).map f := rfl

/-- The number of entries. -/
def size (y : Tensor α) : Nat := y.entries.length

/-- Applies `f` to every entry. -/
def map (f : α → α) (y : Tensor α) : Tensor α :=
  ⟨y.shape, y.entries.map f, by simp [y.length_entries]⟩

@[simp] theorem shape_map (f : α → α) (y : Tensor α) : (y.map f).shape = y.shape := rfl

@[simp] theorem entries_map (f : α → α) (y : Tensor α) : (y.map f).entries = y.entries.map f := rfl

variable [Scalar α]

/-- The entry at a place. Places past the end hold nothing. -/
def get (y : Tensor α) (k : Nat) : α := y.entries.getD k Scalar.undefined

/-- Combines two arrays entry by entry, each repeated along the axes on which the other is larger. -/
def combine (f : α → α → α) (x y : Tensor α) : Tensor α :=
  if h : x.shape = y.shape then
    ⟨x.shape, List.zipWith f x.entries y.entries, by
      simp [x.length_entries, y.length_entries, h]⟩
  else
    let s := (Shape.join? x.shape y.shape).getD []
    tabulate s fun k =>
      f (x.get (Shape.position x.shape.reverse s.reverse k))
        (y.get (Shape.position y.shape.reverse s.reverse k))

theorem shape_combine (f : α → α → α) {x y : Tensor α} (h : x.shape = y.shape) :
    (combine f x y).shape = x.shape := by
  simp [combine, h]

/-- Arrays of one shape combine entry by entry. -/
theorem entries_combine (f : α → α → α) {x y : Tensor α} (h : x.shape = y.shape) :
    (combine f x y).entries = List.zipWith f x.entries y.entries := by
  simp [combine, h]

instance instAdd : Add (Tensor α) := ⟨combine (Scalar.flushed (· + ·))⟩

instance instSub : Sub (Tensor α) := ⟨combine (Scalar.flushed (· - ·))⟩

instance instNeg : Neg (Tensor α) := ⟨map (- ·)⟩

instance instHMul : HMul α (Tensor α) (Tensor α) := ⟨fun c y => y.map (Scalar.flushed (· * ·) c)⟩

instance instHDiv : HDiv (Tensor α) α (Tensor α) := ⟨fun y c => y.map (Scalar.flushed (· / ·) · c)⟩

theorem shape_add {x y : Tensor α} (h : x.shape = y.shape) : (x + y).shape = x.shape :=
  shape_combine _ h

theorem entries_add {x y : Tensor α} (h : x.shape = y.shape) :
    (x + y).entries = List.zipWith (Scalar.flushed (· + ·)) x.entries y.entries := entries_combine _ h

theorem shape_sub {x y : Tensor α} (h : x.shape = y.shape) : (x - y).shape = x.shape :=
  shape_combine _ h

theorem entries_sub {x y : Tensor α} (h : x.shape = y.shape) :
    (x - y).entries = List.zipWith (Scalar.flushed (· - ·)) x.entries y.entries := entries_combine _ h

@[simp] theorem shape_neg (y : Tensor α) : (-y).shape = y.shape := rfl

@[simp] theorem entries_neg (y : Tensor α) : (-y).entries = y.entries.map (- ·) := rfl

@[simp] theorem shape_smul (c : α) (y : Tensor α) : (c * y).shape = y.shape := rfl

@[simp] theorem entries_smul (c : α) (y : Tensor α) :
    (c * y).entries = y.entries.map (Scalar.flushed (· * ·) c) := rfl

@[simp] theorem shape_div (y : Tensor α) (c : α) : (y / c).shape = y.shape := rfl

@[simp] theorem entries_div (y : Tensor α) (c : α) :
    (y / c).entries = y.entries.map (Scalar.flushed (· / ·) · c) := rfl

/-- The part of an array at an index along the first axis, one axis less. An index past the end reads the last
part. -/
def part (y : Tensor α) (i : Nat) : Tensor α :=
  match y.shape with
  | [] => y
  | n :: s => tabulate s fun k => y.get (min i (n - 1) * Shape.size s + k)

/-- The parts of an array along its first axis; a single number has none. -/
def parts (y : Tensor α) : List (Tensor α) :=
  match y.shape with
  | [] => []
  | n :: _ => (List.range n).map y.part

omit [Scalar α] in
/-- The array with given parts along its first axis, if they are of one shape. -/
def ofParts? (ys : List (Tensor α)) : Option (Tensor α) :=
  let s : Shape := match ys with
    | y :: _ => y.shape
    | [] => []
  let entries := ys.flatMap (·.entries)
  if h : entries.length = Shape.size (ys.length :: s) then
    if ys.all (·.shape == s) then some ⟨ys.length :: s, entries, h⟩ else none
  else none

/-- The largest magnitude among the entries; undefined as soon as one entry is, and absent for an array without
entries. -/
def maxNorm? (y : Tensor α) : Option α :=
  match y.entries.map Scalar.abs with
  | [] => none
  | x :: rest => some (rest.foldl worse x)
where
  /-- The greater of two magnitudes, an undefined one counting as the greatest. -/
  worse (x y : α) : α :=
    if Scalar.isUndefined x then x else if Scalar.isUndefined y then y else Scalar.larger x y

end Tensor

end Trajectory
