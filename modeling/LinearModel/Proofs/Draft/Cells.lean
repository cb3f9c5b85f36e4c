import LinearModel.Proofs.Draft.Edits
import LinearModel.Proofs.Layout.Ranges
import Mathlib.Algebra.BigOperators.Intervals
import Mathlib.Data.List.Forall2
import Mathlib.Data.List.Lex

/-!
# Cells by number and by indices

An element of a block can be addressed by its row-major number or by one index for each axis, and
both address the same elements: the numbers below the size of a shape and the index vectors of the
shape go into each other, and the order of the numbers is that of the vectors, with the first axis
counting most.

* `Shape.position_eq_sum` — the number of an index vector as a sum over the axes
* `Shape.strictMonoOn_position` — vectors later in the lexicographic order have larger numbers, and
  with that no two have the same one
* `Cell.number_index_bijection` — how cells are located, and that a coefficient goes to the same
  element whichever way it is addressed
-/

namespace LinearModel

namespace Shape

variable {s : Shape} {index : List Nat}

theorem inRange_iff_forall₂ :
    s.inRange index = true ↔ List.Forall₂ (fun dim i => i < dim) s index := by
  induction s generalizing index with
  | nil => cases index <;> simp [inRange]
  | cons dim rest ih =>
    cases index with
    | nil => simp [inRange]
    | cons i index => simp [inRange, ih]

/-- The number of an index vector is the sum of its indices, each times the number of elements
that lie behind one index of its axis. -/
theorem position_eq_sum (h : index.length = s.length) :
    s.position index
      = ∑ k ∈ Finset.range s.length, index.getD k 0 * (s.drop (k + 1)).prod := by
  induction s generalizing index with
  | nil => cases index <;> rfl
  | cons dim rest ih =>
    cases index with
    | nil => cases h
    | cons i index =>
      rw [List.length_cons, Finset.sum_range_succ', position_cons, ih (Nat.succ.inj h),
        Nat.add_comm]
      simp [size_eq_prod]

/-- **Index vectors later in the lexicographic order have larger numbers.** -/
theorem strictMonoOn_position (s : Shape) :
    StrictMonoOn s.position {index | s.inRange index = true} := by
  induction s with
  | nil =>
    intro index hindex other hother hlt
    cases index <;> cases other <;> simp_all [inRange]
  | cons dim rest ih =>
    intro index hindex other hother hlt
    cases index with
    | nil => cases hindex
    | cons i index =>
    cases other with
    | nil => cases hother
    | cons j other =>
      simp only [Set.mem_ofPred_eq, inRange, Bool.and_eq_true, decide_eq_true_eq] at hindex hother
      rw [position_cons, position_cons]
      rcases List.cons_lt_cons_iff.mp hlt with hij | ⟨rfl, hrest⟩
      · calc i * size rest + position rest index
            < i * size rest + size rest := Nat.add_lt_add_left (position_lt hindex.2) _
          _ = (i + 1) * size rest := by rw [Nat.add_mul, Nat.one_mul]
          _ ≤ j * size rest := Nat.mul_le_mul_right _ hij
          _ ≤ j * size rest + position rest other := Nat.le_add_right _ _
      · exact Nat.add_lt_add_left (ih hindex.2 hother.2 hrest) _

/-- The number of an index vector is taken apart into this vector. -/
theorem unravel_position (h : s.inRange index = true) : s.unravel (s.position index) = index :=
  s.strictMonoOn_position.injOn (inRange_unravel (position_lt h)) h
    (position_unravel (position_lt h))

end Shape

namespace Cell

variable {shape : Shape}

/-! ## Where a cell is located -/

theorem locate?_flat_eq_none_iff (hsize : shape.size < UInt64.size) {number : Nat} :
    (flat number).locate? shape = none ↔ shape.size ≤ number := by
  have hword : shape.wordSize = shape.size := Nat.mod_eq_of_lt hsize
  rw [locate?, hword]
  simp

theorem locate?_flat_eq_some_iff (hsize : shape.size < UInt64.size) {number : Nat}
    {index : List Nat} :
    (flat number).locate? shape = some index
      ↔ shape.inRange index = true ∧ shape.position index = number := by
  have hword : shape.wordSize = shape.size := Nat.mod_eq_of_lt hsize
  rw [locate?, hword]
  constructor
  · intro h
    obtain ⟨hlt, hindex⟩ := Option.ite_none_right_eq_some.mp h
    obtain rfl := Option.some.inj hindex
    exact ⟨Shape.inRange_unravel hlt, Shape.position_unravel hlt⟩
  · rintro ⟨hrange, rfl⟩
    rw [if_pos (Shape.position_lt hrange), Shape.unravel_position hrange]

theorem locate?_multi_eq_some_iff {index located : List Nat} :
    (multi index).locate? shape = some located
      ↔ located = index ∧ shape.inRange index = true := by
  rw [locate?, Option.ite_none_right_eq_some, Option.some.injEq, and_comm, @eq_comm _ index]

end Cell

/-- A coefficient goes to the element at which its cell is located. -/
theorem Draft.writeCell_eq_ok {draft : Draft} {name : String} {tensor : Tensor}
    (hget : Named.get? draft.arrays name = some tensor) {cell : Cell} {index : List Nat}
    (h : cell.locate? tensor.shape = some index) (value : Binary64) :
    draft.writeCell name cell value
      = .ok ⟨Named.insert draft.arrays name (tensor.set index value)⟩ := by
  rw [writeCell, change_eq_map hget]
  simp [h, Except.map]

/-- **Numbers and index vectors are in bijection.** Let the size of the shape be a word. A number is
located exactly if it lies below the size, and then at a vector with one index for each axis, each
below its dimension, of which it is the row-major number. Each such vector belongs to exactly one
number, and larger numbers belong to vectors later in the lexicographic order. Given as a vector, a
cell is located where it says, provided that it has one index below the dimension for each axis. So
a coefficient that is addressed by a number and one that is addressed by the vector of this number
are written to the same element. -/
theorem Cell.number_index_bijection {shape : Shape} (hsize : shape.prod < UInt64.size) :
    (∀ number, (flat number).locate? shape = none ↔ shape.prod ≤ number)
      ∧ (∀ number < shape.prod, ∃ index, (flat number).locate? shape = some index
        ∧ List.Forall₂ (fun dim i => i < dim) shape index
        ∧ ∑ k ∈ Finset.range shape.length, index.getD k 0 * (shape.drop (k + 1)).prod = number)
      ∧ (∀ index, List.Forall₂ (fun dim i => i < dim) shape index →
        ∃! number, (flat number).locate? shape = some index)
      ∧ (∀ number larger index other, (flat number).locate? shape = some index →
        (flat larger).locate? shape = some other → (number < larger ↔ index < other))
      ∧ (∀ index located, (multi index).locate? shape = some located
        ↔ located = index ∧ List.Forall₂ (fun dim i => i < dim) shape index)
      ∧ ∀ (draft : Draft) name tensor, Named.get? draft.arrays name = some tensor →
        tensor.shape = shape → ∀ number index, (flat number).locate? shape = some index →
          ∀ value, ∃ next written, draft.writeCell name (.flat number) value = .ok next
            ∧ draft.writeCell name (.multi index) value = .ok next
            ∧ Named.get? next.arrays name = some written
            ∧ written.entries = tensor.entries.set number value := by
  rw [← Shape.size_eq_prod] at hsize ⊢
  simp only [← Shape.inRange_iff_forall₂]
  refine ⟨fun number => locate?_flat_eq_none_iff hsize, fun number hnumber => ?_,
    fun index hindex => ?_, fun number larger index other h hother => ?_,
    fun index located => locate?_multi_eq_some_iff, ?_⟩
  · have hrange := Shape.inRange_unravel hnumber
    have hposition := Shape.position_unravel hnumber
    refine ⟨_, (locate?_flat_eq_some_iff hsize).mpr ⟨hrange, hposition⟩, hrange, ?_⟩
    rw [← Shape.position_eq_sum (Shape.length_of_inRange hrange), hposition]
  · refine ⟨shape.position index, (locate?_flat_eq_some_iff hsize).mpr ⟨hindex, rfl⟩, ?_⟩
    intro number h
    exact ((locate?_flat_eq_some_iff hsize).mp h).2.symm
  · obtain ⟨hrange, rfl⟩ := (locate?_flat_eq_some_iff hsize).mp h
    obtain ⟨hrange', rfl⟩ := (locate?_flat_eq_some_iff hsize).mp hother
    exact shape.strictMonoOn_position.lt_iff_lt hrange hrange'
  · rintro draft name tensor hget rfl number index h value
    obtain ⟨hrange, rfl⟩ := (locate?_flat_eq_some_iff hsize).mp h
    refine ⟨_, tensor.set index value, Draft.writeCell_eq_ok hget h value,
      Draft.writeCell_eq_ok hget (locate?_multi_eq_some_iff.mpr ⟨rfl, hrange⟩) value,
      Named.get?_insert_self .., Grid.entries_set hrange value⟩

/-- The last but one element of an array of three axes is the one at `[1, 2, 0]`, and the last one
comes behind it. -/
theorem Cell.number_index_bijection_three_axes :
    let shape : Shape := [2, 3, 2]
    let draft : Draft := ⟨[("x", .zeros shape)]⟩
    shape.prod < UInt64.size
      ∧ (flat 12).locate? shape = none
      ∧ (∃ index, (flat 10).locate? shape = some index ∧ index = [1, 2, 0]
        ∧ ∑ k ∈ Finset.range shape.length, index.getD k 0 * (shape.drop (k + 1)).prod = 10
        ∧ ∃ next, draft.writeCell "x" (.flat 10) .negZero = .ok next
          ∧ draft.writeCell "x" (.multi index) .negZero = .ok next)
      ∧ (10 < 11 ↔ ([1, 2, 0] : List Nat) < [1, 2, 1]) := by
  intro shape draft
  have hsize : shape.prod < UInt64.size := by decide
  obtain ⟨hnone, hsome, -, hlt, -, hwrite⟩ := number_index_bijection hsize
  obtain ⟨index, hindex, -, hsum⟩ := hsome 10 (by decide)
  have heq : index = [1, 2, 0] := Option.some.inj (hindex.symm.trans (by decide))
  obtain ⟨next, -, hflat, hmulti, -⟩ := hwrite draft "x" _ rfl rfl 10 index hindex .negZero
  exact ⟨hsize, (hnone 12).mpr (by decide), ⟨index, hindex, heq, hsum, next, hflat, hmulti⟩,
    hlt 10 11 _ _ (by decide) (by decide)⟩

end LinearModel
