/-!
# Shapes and positions

A shape lists the dimensions of an array, the first axis outermost. Its elements are numbered in
row-major order: the last index moves fastest. `position` and `unravel` go between an index vector
and its number; `unravel` divides from the last axis to the first, so the quotient that is left
over at the end is zero exactly when the number lies in the array.

Element counts have two forms: `size` is the product of the dimensions, `wordSize` is that product
as a 64-bit word, which is what a position is compared with before it is taken apart.
-/

namespace LinearModel

abbrev Shape := List Nat

namespace Shape

/-- The number of elements; the empty shape has one. -/
def size : Shape → Nat
  | [] => 1
  | dim :: rest => dim * size rest

@[simp] theorem size_nil : size [] = 1 := rfl

@[simp] theorem size_cons (dim : Nat) (rest : Shape) : size (dim :: rest) = dim * size rest := rfl

theorem size_pos {s : Shape} (h : ∀ dim ∈ s, 0 < dim) : 0 < size s := by
  induction s with
  | nil => simp
  | cons dim rest ih =>
    exact Nat.mul_pos (h dim List.mem_cons_self) (ih fun d hd => h d (List.mem_cons_of_mem _ hd))

/-- The number of elements as a 64-bit word. -/
def wordSize (s : Shape) : Nat := s.size % UInt64.size

/-! ## Counts that fit -/

/-- The product of two words, if it is a word. -/
def checkedMul (a b : Nat) : Option Nat := if a * b < UInt64.size then some (a * b) else none

/-- The most elements of eight bytes that an array can hold: its bytes are counted by a signed
word. -/
def elementLimit : Nat := (UInt64.size / 2 - 1) / 8

/-- The number of elements, if every partial product is a word and an array can hold so many. -/
def checkedSize (s : Shape) : Option Nat :=
  match s.foldlM checkedMul 1 with
  | some n => if n ≤ elementLimit then some n else none
  | none => none

/-! ## Index vectors -/

/-- One index for each axis, each below its dimension. -/
def inRange : Shape → List Nat → Bool
  | [], [] => true
  | dim :: rest, i :: index => decide (i < dim) && inRange rest index
  | _, _ => false

/-- The row-major number of an index vector. -/
def position : Shape → List Nat → Nat
  | _ :: rest, i :: index => i * size rest + position rest index
  | _, _ => 0

theorem length_of_inRange : ∀ {s : Shape} {index : List Nat}, inRange s index = true →
    index.length = s.length
  | [], [], _ => rfl
  | _ :: rest, _ :: index, h => by
    simp only [inRange, Bool.and_eq_true] at h
    simp [length_of_inRange h.2]
  | [], _ :: _, h => by simp [inRange] at h
  | _ :: _, [], h => by simp [inRange] at h

theorem inRange_append {s : Shape} {index : List Nat} (h : index.length = s.length) (t : Shape)
    (tail : List Nat) :
    inRange (s ++ t) (index ++ tail) = (inRange s index && inRange t tail) := by
  induction s generalizing index with
  | nil =>
    rw [List.length_eq_zero_iff.mp h]
    rfl
  | cons dim rest ih =>
    cases index with
    | nil => cases h
    | cons i index =>
      rw [List.cons_append, List.cons_append, inRange, inRange, ih (Nat.succ.inj h), Bool.and_assoc]

theorem inRange_reverse_reverse {s : Shape} {index : List Nat} (h : inRange s index = true) :
    inRange s.reverse index.reverse = true := by
  induction s generalizing index with
  | nil =>
    cases index with
    | nil => rfl
    | cons i index => cases h
  | cons dim rest ih =>
    cases index with
    | nil => cases h
    | cons i index =>
      rw [inRange, Bool.and_eq_true] at h
      have hlength : index.reverse.length = rest.reverse.length := by
        simp [length_of_inRange h.2]
      rw [List.reverse_cons, List.reverse_cons, inRange_append hlength, ih h.2]
      simp [inRange, h.1]

/-- An index vector is for the reversed shape if the reversed vector is for the shape. -/
theorem inRange_reverse {s : Shape} {index : List Nat} :
    inRange s.reverse index = true ↔ inRange s index.reverse = true := by
  constructor
  · intro h
    simpa using inRange_reverse_reverse h
  · intro h
    simpa using inRange_reverse_reverse h

theorem position_lt : ∀ {s : Shape} {index : List Nat}, inRange s index = true →
    position s index < size s
  | [], [], _ => by simp [position]
  | dim :: rest, i :: index, h => by
    simp only [inRange, Bool.and_eq_true, decide_eq_true_eq] at h
    have hlt := position_lt h.2
    calc position (dim :: rest) (i :: index) = i * size rest + position rest index := rfl
      _ < i * size rest + size rest := Nat.add_lt_add_left hlt _
      _ = (i + 1) * size rest := by rw [Nat.add_mul, Nat.one_mul]
      _ ≤ dim * size rest := Nat.mul_le_mul_right _ h.1
  | [], _ :: _, h => by simp [inRange] at h
  | _ :: _, [], h => by simp [inRange] at h

/-- One step from the last axis to the first: the remainder is that axis's index, and the quotient
is passed on. -/
def unravelStep (dim : Nat) (state : Nat × List Nat) : Nat × List Nat :=
  (state.1 / dim, state.1 % dim :: state.2)

/-- The index vector of a row-major number. -/
def unravel (s : Shape) (number : Nat) : List Nat := (s.foldr unravelStep (number, [])).2

/-- Every index vector of the shape, in row-major order. -/
def indices : Shape → List (List Nat)
  | [] => [[]]
  | dim :: rest => (List.range dim).flatMap fun i => (indices rest).map (i :: ·)

theorem length_indices (s : Shape) : (indices s).length = size s := by
  induction s with
  | nil => rfl
  | cons dim rest ih => simp [indices, List.length_flatMap, ih, List.map_const']

end Shape

end LinearModel
