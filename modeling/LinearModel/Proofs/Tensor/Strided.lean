import LinearModel.Proofs.Layout.Places
import LinearModel.Tensor.Strided

/-!
# Reading an array

Reading an array in the order of its index vectors gives each of its elements, wherever they lie.
An array with its axes reversed has its element at the reversed index vector, although nothing has
moved in memory.

* `Strided.get?_inOrder`, `Strided.inOrder_ofTensor` — what is read
* `Strided.get?_reverseAxes` — the elements of an array with its axes reversed
* `Strided.reverseAxes_reverseAxes` — reversing the axes twice changes nothing
-/

namespace LinearModel

/-! ## Elements by their index vectors -/

namespace Shape

/-- An index vector is listed at its own number. -/
theorem getElem?_indices {s : Shape} {index : List Nat} (h : s.inRange index = true) :
    s.indices[s.position index]? = some index := by
  obtain ⟨k, hk, hindex⟩ := List.mem_iff_getElem.mp (mem_indices.mpr h)
  have hnumber : (s.indices.map s.position)[k]? = some (s.position index) := by
    simp [hk, hindex]
  -- the numbers of the vectors in the list are those of their places
  rw [indices_map_position, List.getElem?_range (by simpa [length_indices] using hk)] at hnumber
  rw [← Option.some.inj hnumber, List.getElem?_eq_getElem hk, hindex]

/-- What is made of an index vector stands at its number. -/
theorem getElem?_map_indices {α : Type} {s : Shape} {index : List Nat}
    (h : s.inRange index = true) (f : List Nat → α) :
    (s.indices.map f)[s.position index]? = some (f index) := by
  rw [List.getElem?_map, getElem?_indices h]
  rfl

end Shape

/-- An array is given by its shape and its elements. -/
theorem Grid.ext_get? {α : Type} {s t : Grid α} (hshape : s.shape = t.shape)
    (hget : ∀ index, s.get? index = t.get? index) : s = t := by
  refine ext hshape ((Option.some_injective α).list_map ?_)
  rw [map_some_entries, map_some_entries, ← hshape]
  exact List.map_congr_left fun index _ => hget index

namespace Strided

/-! ## What is read -/

theorem address_lt {array : Strided} {index : List Nat} (h : array.shape.inRange index = true) :
    array.address index < array.memory.length := by
  have hinside := array.inside index h
  unfold address
  omega

theorem exists_get? {array : Strided} {index : List Nat} (h : array.shape.inRange index = true) :
    ∃ x, array.get? index = some x := by
  unfold get?
  rw [if_pos h]
  exact ⟨_, List.getElem?_eq_getElem (address_lt h)⟩

/-- **Reading in order gives each element at its index vector.** -/
theorem get?_inOrder (array : Strided) (index : List Nat) :
    array.inOrder.get? index = array.get? index := by
  unfold get?
  by_cases h : array.shape.inRange index = true
  · rw [if_pos h, Grid.get?_of_inRange h]
    refine (Shape.getElem?_map_indices h _).trans ?_
    simp [address_lt h]
  · rw [if_neg h]
    exact if_neg h

@[simp] theorem shape_ofTensor (t : Tensor) : (ofTensor t).shape = t.shape := rfl

theorem get?_ofTensor (t : Tensor) (index : List Nat) : (ofTensor t).get? index = t.get? index := by
  have haddress : (ofTensor t).address index = t.shape.position index := by
    unfold address ofTensor
    rw [displacement_strides]
    simp
  unfold get?
  rw [haddress]
  rfl

/-- What is listed in memory in row-major order is read as it is listed. -/
@[simp] theorem inOrder_ofTensor (t : Tensor) : (ofTensor t).inOrder = t :=
  Grid.ext_get? rfl fun index => ((ofTensor t).get?_inOrder index).trans (get?_ofTensor t index)

/-! ## Reversed axes -/

/-- **The element of an array with its axes reversed is the one at the reversed index vector.** -/
theorem get?_reverseAxes (array : Strided) (index : List Nat) :
    array.reverseAxes.get? index = array.get? index.reverse := by
  unfold get?
  by_cases h : array.reverseAxes.shape.inRange index = true
  · have hlength : index.length = array.strides.length := by
      rw [Shape.length_of_inRange h, array.length_strides]
      exact List.length_reverse
    -- the indices and the strides change their order together, so the place is the same
    have haddress : array.reverseAxes.address index = array.address index.reverse := by
      unfold address reverseAxes
      rw [displacement_reverse hlength]
    rw [if_pos h, if_pos (Shape.inRange_reverse.mp h), haddress]
    rfl
  · rw [if_neg h, if_neg (mt Shape.inRange_reverse.mpr h)]

example : (ofTensor ⟨[2, 2], [.ofInt 1, .ofInt 2, .ofInt 3, .ofInt 4], rfl⟩).reverseAxes.inOrder
    = ⟨[2, 2], [.ofInt 1, .ofInt 3, .ofInt 2, .ofInt 4], rfl⟩ := by
  decide +kernel

/-- **Reversing the axes twice changes nothing.** -/
theorem reverseAxes_reverseAxes (array : Strided) : array.reverseAxes.reverseAxes = array := by
  simp [reverseAxes]

end Strided

end LinearModel
