import LinearModel.Tensor.Basic

/-!
# Arrays in memory

The numbers of an array need not lie in memory in the order of its index vectors. What says where
they lie is one stride for each axis: the distance from one index to the next. An array is
transposed by listing its dimensions and its strides in the opposite order, while its numbers stay
where they are; `inOrder` reads them in the order of the index vectors.
-/

namespace LinearModel

namespace Shape

/-- For each axis the distance from one index to the next, in row-major order. -/
def strides : Shape → List Int
  | [] => []
  | _ :: rest => size rest :: strides rest

theorem length_strides (s : Shape) : s.strides.length = s.length := by
  induction s with
  | nil => rfl
  | cons dim rest ih => simp [strides, ih]

end Shape

/-- The distance to the element at an index vector from the one at the zeros. -/
def displacement : List Int → List Nat → Int
  | stride :: strides, i :: index => i * stride + displacement strides index
  | _, _ => 0

/-- In row-major order the distance is the number of the index vector. -/
theorem displacement_strides (s : Shape) (index : List Nat) :
    displacement s.strides index = s.position index := by
  induction s generalizing index with
  | nil => cases index <;> rfl
  | cons dim rest ih =>
    cases index with
    | nil => rfl
    | cons i index =>
      rw [Shape.strides, displacement, ih]
      rfl

theorem displacement_append {strides : List Int} {index : List Nat}
    (h : index.length = strides.length) (more : List Int) (tail : List Nat) :
    displacement (strides ++ more) (index ++ tail)
      = displacement strides index + displacement more tail := by
  induction strides generalizing index with
  | nil =>
    rw [List.length_eq_zero_iff.mp h]
    exact (Int.zero_add _).symm
  | cons stride strides ih =>
    cases index with
    | nil => cases h
    | cons i index =>
      rw [List.cons_append, List.cons_append, displacement, displacement, ih (Nat.succ.inj h),
        Int.add_assoc]

/-- Indices and strides that change their order together keep the distance. -/
theorem displacement_reverse {strides : List Int} {index : List Nat}
    (h : index.length = strides.length) :
    displacement strides.reverse index = displacement strides index.reverse := by
  induction strides generalizing index with
  | nil =>
    rw [List.length_eq_zero_iff.mp h]
    rfl
  | cons stride strides ih =>
    -- the first stride belongs to the last index
    obtain ⟨front, i, rfl⟩ : ∃ front i, index = front ++ [i] := by
      have hne : index ≠ [] := by
        rintro rfl
        cases h
      exact ⟨_, _, (List.dropLast_concat_getLast hne).symm⟩
    have hfront : front.length = strides.length := by simpa using h
    rw [List.reverse_cons, List.reverse_append, displacement_append (by simpa using hfront),
      ih hfront]
    simp [displacement, Int.add_comm]

/-- Numbers in memory, read as an array. -/
structure Strided where
  shape : Shape
  /-- Where the element at the zeros lies. -/
  start : Nat
  /-- The distance from one index to the next on each axis; a negative one goes backwards. -/
  strides : List Int
  memory : List Binary64
  length_strides : strides.length = shape.length
  /-- No element lies outside of the memory. -/
  inside : ∀ index, shape.inRange index = true →
    0 ≤ start + displacement strides index ∧ start + displacement strides index < memory.length
  deriving DecidableEq

namespace Strided

/-- Where the element at an index vector lies. -/
def address (array : Strided) (index : List Nat) : Nat :=
  (array.start + displacement array.strides index).toNat

def get? (array : Strided) (index : List Nat) : Option Binary64 :=
  if array.shape.inRange index then array.memory[array.address index]? else none

/-- The elements in the order of their index vectors. -/
def inOrder (array : Strided) : Tensor where
  shape := array.shape
  entries := array.shape.indices.map fun index => array.memory.getD (array.address index) .zero
  length_entries := by simp [Shape.length_indices]

/-- The elements of a tensor, in memory as they are listed. -/
def ofTensor (t : Tensor) : Strided where
  shape := t.shape
  start := 0
  strides := t.shape.strides
  memory := t.entries
  length_strides := t.shape.length_strides
  inside index hindex := by
    have hlt := Shape.position_lt hindex
    rw [← t.length_entries] at hlt
    rw [displacement_strides]
    omega

/-- The axes in the opposite order. Nothing moves in memory. -/
def reverseAxes (array : Strided) : Strided where
  shape := array.shape.reverse
  start := array.start
  strides := array.strides.reverse
  memory := array.memory
  length_strides := by simp [array.length_strides]
  inside index hindex := by
    have hlength : index.length = array.strides.length := by
      rw [Shape.length_of_inRange hindex, array.length_strides, List.length_reverse]
    rw [displacement_reverse hlength]
    exact array.inside index.reverse (Shape.inRange_reverse.mp hindex)

/-- Where an array is asked for, a tensor is one in row-major order. -/
instance : Coe Tensor Strided := ⟨ofTensor⟩

end Strided

end LinearModel
