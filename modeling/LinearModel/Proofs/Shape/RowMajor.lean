import LinearModel.Cell

/-!
# Row-major numbering

`position` and `unravel` go back and forth between the index vectors of a shape and the numbers
below its size.

* `position_unravel`, `inRange_unravel` — the vector that a number is taken apart into lies in the
  shape and has that number
* `indices_map_position` — the index vectors, listed in order, have the numbers `0, 1, …`
* `exists_locate?` — a cell of a shape, given in either way, is found at the number that it has

`unravel` divides from the last axis to the first. What it has reached after some axes is the
quotient by their size beside the vector of the remainder (`foldr_unravelStep`, `position_unravel`).
-/

namespace LinearModel

namespace Shape

/-! ## Numbers taken apart -/

theorem foldr_unravelStep (s : Shape) (number : Nat) :
    (s.foldr unravelStep (number, [])).1 = number / s.size := by
  induction s with
  | nil => simp
  | cons dim rest ih =>
    rw [List.foldr_cons, size_cons, Nat.mul_comm, ← Nat.div_div_eq_div_mul, ← ih]
    rfl

theorem unravel_cons (dim : Nat) (rest : Shape) (number : Nat) :
    unravel (dim :: rest) number = number / size rest % dim :: unravel rest number := by
  rw [← foldr_unravelStep]
  rfl

theorem position_cons (dim i : Nat) (rest : Shape) (index : List Nat) :
    position (dim :: rest) (i :: index) = i * size rest + position rest index := rfl

theorem position_unravel_mod (s : Shape) (number : Nat) :
    s.position (s.unravel number) = number % s.size := by
  induction s with
  | nil => simp [position, Nat.mod_one]
  | cons dim rest ih =>
    rw [unravel_cons, position_cons, ih, size_cons, Nat.mul_comm dim, Nat.mod_mul, Nat.add_comm,
      Nat.mul_comm]

theorem position_unravel {s : Shape} {number : Nat} (h : number < s.size) :
    s.position (s.unravel number) = number := by
  rw [position_unravel_mod, Nat.mod_eq_of_lt h]

theorem inRange_unravel_of_size_pos {s : Shape} (h : 0 < s.size) (number : Nat) :
    s.inRange (s.unravel number) = true := by
  induction s with
  | nil => rfl
  | cons dim rest ih =>
    rw [size_cons] at h
    have hdim : 0 < dim := Nat.pos_of_mul_pos_right h
    have hrest : 0 < size rest := Nat.pos_of_mul_pos_left h
    rw [unravel_cons, inRange, ih hrest]
    simp [Nat.mod_lt _ hdim]

theorem inRange_unravel {s : Shape} {number : Nat} (h : number < s.size) :
    s.inRange (s.unravel number) = true :=
  inRange_unravel_of_size_pos (Nat.zero_lt_of_lt h) number

/-! ## All index vectors -/

theorem mem_indices {s : Shape} {index : List Nat} :
    index ∈ s.indices ↔ s.inRange index = true := by
  induction s generalizing index with
  | nil => cases index <;> simp [indices, inRange]
  | cons dim rest ih =>
    cases index with
    | nil => simp [indices, inRange]
    | cons i index => simp [indices, inRange, ih]

/-- Numbers below `dim * n`, `n` at a time. -/
theorem flatMap_range_mul (dim n : Nat) :
    ((List.range dim).flatMap fun i => (List.range n).map (i * n + ·)) = List.range (dim * n) := by
  induction dim with
  | zero => simp
  | succ dim ih =>
    rw [List.range_succ, List.flatMap_append, ih, Nat.add_mul, Nat.one_mul, List.range_add]
    simp

/-- **The index vectors are listed in the order of their numbers.** -/
theorem indices_map_position (s : Shape) : s.indices.map s.position = List.range s.size := by
  induction s with
  | nil => rfl
  | cons dim rest ih =>
    rw [indices, List.map_flatMap, size_cons, ← flatMap_range_mul, ← ih]
    simp [Function.comp_def, position_cons]

end Shape

/-! ## Cells -/

namespace Cell

/-- The cell lies in the shape: its number is below the size, or it has one index for each axis,
each below its dimension. -/
def Within (shape : Shape) : Cell → Prop
  | flat number => number < shape.size
  | multi index => shape.inRange index = true

/-- The row-major number of a cell of the shape. -/
def number (shape : Shape) : Cell → Nat
  | flat number => number
  | multi index => shape.position index

instance (shape : Shape) (cell : Cell) : Decidable (cell.Within shape) :=
  match cell with
  | flat _ => inferInstanceAs (Decidable (_ < _))
  | multi _ => inferInstanceAs (Decidable (_ = _))

theorem number_lt {shape : Shape} {cell : Cell} (h : cell.Within shape) :
    cell.number shape < shape.size := by
  cases cell with
  | flat number => exact h
  | multi index => exact Shape.position_lt h

/-- **A cell is found at its number.** The word that a flat number is compared with is the size
itself wherever the size is a word. -/
theorem exists_locate? {shape : Shape} {cell : Cell} (hsize : shape.size < UInt64.size)
    (h : cell.Within shape) :
    ∃ index, cell.locate? shape = some index ∧ shape.inRange index = true
      ∧ shape.position index = cell.number shape := by
  cases cell with
  | flat number =>
    have hword : shape.wordSize = shape.size := Nat.mod_eq_of_lt hsize
    refine ⟨shape.unravel number, ?_, Shape.inRange_unravel h, Shape.position_unravel h⟩
    rw [locate?, hword]
    exact if_pos h
  | multi index => exact ⟨index, if_pos h, h, rfl⟩

theorem locate?_eq_none {shape : Shape} {cell : Cell} (hsize : shape.size < UInt64.size)
    (h : ¬ cell.Within shape) : cell.locate? shape = none := by
  cases cell with
  | flat number =>
    have hword : shape.wordSize = shape.size := Nat.mod_eq_of_lt hsize
    rw [locate?, hword]
    exact if_neg h
  | multi index => exact if_neg h

end Cell

end LinearModel
