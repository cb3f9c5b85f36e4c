import LinearModel.Proofs.Layout.Rearranging
import Mathlib.Data.List.Pairwise

/-!
# The parts of a flat vector

Each place of a flat vector lies in the range of one block and of no other. So a vector is made up
of the parts of the blocks, and an element that is replaced is seen in one part only.

* `WellFormed.exists_mem_range`, `WellFormed.eq_of_mem_range` — the block of a place
* `WellFormed.eq_of_parts` — vectors with the same parts are the same vector
* `Placed.part_set`, `Placed.part_set_of_notMem` — the parts of a vector of which one element is
  replaced
-/

namespace LinearModel

variable {α : Type}

namespace Placed

variable {block : Placed}

theorem mem_range_iff {i : Nat} :
    i ∈ block.range ↔ block.offset ≤ i ∧ i < block.offset + block.length := List.mem_range'_1

theorem getElem?_part {number : Nat} (hnumber : number < block.length) (flat : List α) :
    (block.part flat)[number]? = flat[block.offset + number]? := by
  rw [part, List.getElem?_take_of_lt hnumber, List.getElem?_drop]

/-! ## One element replaced -/

theorem part_set (flat : List α) (number : Nat) (value : α) :
    block.part (flat.set (block.offset + number) value) = (block.part flat).set number value := by
  have hnot : ¬ block.offset + number < block.offset := by omega
  rw [part, part, List.drop_set, if_neg hnot, Nat.add_sub_cancel_left, List.take_set]

theorem part_set_of_notMem (flat : List α) {i : Nat} (h : i ∉ block.range) (value : α) :
    block.part (flat.set i value) = block.part flat := by
  rw [mem_range_iff] at h
  rw [part, part, List.drop_set]
  split
  · rfl
  · -- the element lies behind the block
    have hle : block.length ≤ i - block.offset := by omega
    rw [List.take_set, List.set_eq_of_length_le (Nat.le_trans (List.length_take_le ..) hle)]

end Placed

namespace Layout.WellFormed

variable {layout : Layout} (hwf : layout.WellFormed)

include hwf

/-! ## The block of a place -/

theorem lt_of_mem_range {block : Placed} (hblock : block ∈ layout.blocks) {i : Nat}
    (h : i ∈ block.range) : i < layout.dimension :=
  Nat.lt_of_lt_of_le (Placed.mem_range_iff.mp h).2 (hwf.offset_add_length_le hblock)

/-- Each place lies in the range of a block. -/
theorem exists_mem_range {i : Nat} (hi : i < layout.dimension) :
    ∃ block ∈ layout.blocks, i ∈ block.range := by
  rw [← List.mem_flatMap, hwf.partitioned.ranges_eq]
  exact List.mem_range.mpr hi

/-- Blocks whose ranges meet are the same block. -/
theorem eq_of_mem_range {block other : Placed} (hblock : block ∈ layout.blocks)
    (hother : other ∈ layout.blocks) {i : Nat} (h : i ∈ block.range) (h' : i ∈ other.range) :
    block = other := by
  by_contra hne
  have : Std.Symm fun first second : Placed => first.range.Disjoint second.range :=
    ⟨fun _ _ => List.disjoint_symm⟩
  exact hwf.tiles.pairwise_disjoint.forall hblock hother hne h h'

/-! ## A vector by its parts -/

/-- **Vectors with the same parts are the same vector.** -/
theorem eq_of_parts {flat other : List α} (hlen : flat.length = layout.dimension)
    (hlen' : other.length = layout.dimension)
    (h : ∀ block ∈ layout.blocks, block.part flat = block.part other) : flat = other := by
  rw [← hwf.flatMap_slice hlen, ← hwf.flatMap_slice hlen']
  exact List.flatMap_congr h

end Layout.WellFormed

end LinearModel
