import LinearModel.Proofs.Layout.RoundTrip
import LinearModel.Proofs.Shape.RowMajor
import Mathlib.Data.List.Basic
import Mathlib.Data.Option.Basic

/-!
# Flat places

The element of a block at an index vector has its place in a flat vector at the offset of the block
and as many more as the row-major number of the index vector.

* `WellFormed.getElem?_flatMap` — what stands at a place of a vector that is made of one piece for
  each block
* `WellFormed.split_eq_ok_iff` — the family that a vector is split into is the only one that has at
  each index vector what stands at its place
-/

namespace LinearModel

variable {α : Type}

/-! ## Elements by their index vectors -/

/-- The entries of an array, each by its index vector. -/
theorem Grid.map_some_entries (t : Grid α) : t.entries.map some = t.shape.indices.map t.get? := by
  have hget : t.shape.indices.map t.get?
      = (t.shape.indices.map t.shape.position).map fun number => t.entries[number]? := by
    rw [List.map_map]
    exact List.map_congr_left fun index h => get?_of_inRange (Shape.mem_indices.mp h)
  rw [hget, Shape.indices_map_position, ← t.length_entries]
  refine List.ext_getElem (by simp) fun i hi hi' => ?_
  simp

/-- The element of an array of a family. -/
def Named.at? (arrays : Named (Grid α)) (name : String) (index : List Nat) : Option α :=
  (Named.get? arrays name).bind fun grid => grid.get? index

theorem Named.at?_eq {arrays : Named (Grid α)} {name : String} {grid : Grid α}
    (h : Named.get? arrays name = some grid) : Named.at? arrays name = grid.get? := by
  funext index
  rw [at?, h]
  rfl

/-- A slice, element by element in the order of the index vectors. -/
theorem slice_eq_map_indices {shape : Shape} {offset : Nat} {flat : List α} (default : α)
    (h : offset + shape.size ≤ flat.length) :
    (flat.drop offset).take shape.size
      = shape.indices.map fun index => flat.getD (offset + shape.position index) default := by
  have hnumbers : (shape.indices.map fun index => flat.getD (offset + shape.position index) default)
      = (List.range shape.size).map fun number => flat.getD (offset + number) default := by
    rw [← Shape.indices_map_position, List.map_map]
    rfl
  rw [hnumbers]
  refine List.ext_getElem (by simp; omega) fun i hi hi' => ?_
  have hlt : offset + i < flat.length := by simp at hi; omega
  simp [hlt]

namespace Layout

variable {layout : Layout} {flat : List α} {arrays : Named (Grid α)}

theorem WellFormed.place_lt (hwf : layout.WellFormed) {block : Placed}
    (hblock : block ∈ layout.blocks) {index : List Nat}
    (hindex : block.shape.inRange index = true) :
    block.offset + block.shape.position index < layout.dimension :=
  Nat.lt_of_lt_of_le (Nat.add_lt_add_left (Shape.position_lt hindex) _)
    (hwf.offset_add_length_le hblock)

/-- What stands at the flat place of an index vector. -/
theorem WellFormed.getElem?_flatMap (hwf : layout.WellFormed) {piece : Placed → List α}
    (hlen : ∀ block ∈ layout.blocks, (piece block).length = block.length) {block : Placed}
    (hblock : block ∈ layout.blocks) (grid : Grid α) (hpiece : piece block = grid.entries)
    (hshape : grid.shape = block.shape) {index : List Nat}
    (hindex : block.shape.inRange index = true) :
    (layout.blocks.flatMap piece)[block.offset + block.shape.position index]?
      = grid.get? index := by
  rw [hwf.tiles.getElem?_flatMap hlen hblock (Shape.position_lt hindex), hpiece,
    Grid.get?_of_inRange (hshape ▸ hindex), hshape]

/-! ## Reading a vector -/

/-- The family has one array for each block, in the order of the blocks and of their shapes, and
each element is the one that stands in the vector at its place. -/
structure ReadsOff (layout : Layout) (flat : List α) (arrays : Named (Grid α)) : Prop where
  length_eq : flat.length = layout.dimension
  shapes_eq : arrays.shapes = layout.shapes
  names_nodup : (Named.names arrays).Nodup
  element : ∀ block ∈ layout.blocks, ∀ index, block.shape.inRange index = true →
    ∃ x, Named.at? arrays block.name index = some x
      ∧ flat[block.offset + block.shape.position index]? = some x

/-- What can be seen of an array of a family: its name, its shape and its elements. -/
def face (entry : String × Grid α) : (String × Shape) × List (Option α) :=
  ((entry.1, entry.2.shape), entry.2.entries.map some)

theorem face_injective : Function.Injective (face (α := α)) := by
  rintro ⟨name, grid⟩ ⟨name', grid'⟩ h
  simp only [face, Prod.mk.injEq] at h
  obtain ⟨⟨hname, hshape⟩, hentries⟩ := h
  have hgrid : grid = grid' :=
    Grid.ext hshape ((Option.some_injective α).list_map hentries)
  rw [hname, hgrid]

/-- The arrays that are read off a vector, as the vector and the blocks show them. -/
theorem ReadsOff.map_face (h : layout.ReadsOff flat arrays) :
    arrays.map face = layout.blocks.map fun block => ((block.name, block.shape),
      block.shape.indices.map fun index => flat[block.offset + block.shape.position index]?) := by
  have hlen : arrays.length = layout.blocks.length := by
    simpa [Named.shapes, shapes] using congrArg List.length h.shapes_eq
  refine List.ext_getElem (by simp [hlen]) fun i hi hi' => ?_
  rw [List.length_map] at hi hi'
  have hshapes := congrArg (fun shapes => shapes[i]?) h.shapes_eq
  simp only [Named.shapes, shapes, List.getElem?_map, List.getElem?_eq_getElem hi,
    List.getElem?_eq_getElem hi', Option.map_some, Option.some.injEq, Prod.mk.injEq] at hshapes
  obtain ⟨hname, hshape⟩ := hshapes
  rw [List.getElem_map, List.getElem_map, face, Grid.map_some_entries, hname, hshape]
  refine congrArg (Prod.mk _) (List.map_congr_left fun index hindex => ?_)
  -- the array is found under the name of the block, as no other has this name
  obtain ⟨x, hat, hflat⟩ := h.element _ (List.getElem_mem hi') index (Shape.mem_indices.mp hindex)
  have hget : Named.get? arrays arrays[i].1 = some arrays[i].2 :=
    Named.get?_of_mem h.names_nodup (List.getElem_mem hi)
  rw [← hname, Named.at?_eq hget] at hat
  rw [hat, hflat]

/-- A vector can be read in one way only. -/
theorem ReadsOff.unique {other : Named (Grid α)} (h : layout.ReadsOff flat arrays)
    (hother : layout.ReadsOff flat other) : arrays = other :=
  face_injective.list_map (h.map_face.trans hother.map_face.symm)

theorem WellFormed.exists_readsOff (hwf : layout.WellFormed)
    (hlen : flat.length = layout.dimension) :
    ∃ arrays, layout.split flat = .ok arrays ∧ layout.ReadsOff flat arrays := by
  obtain ⟨arrays, hsplit, hshapes, hslices⟩ := exists_split hwf hlen
  refine ⟨arrays, hsplit, hlen, hshapes, hwf.names_nodup_of_shapes hshapes, ?_⟩
  intro block hblock index hindex
  obtain ⟨grid, hget, hshape, hentries⟩ := hslices block hblock
  have hrange : grid.shape.inRange index = true := hshape ▸ hindex
  obtain ⟨x, hx⟩ := Grid.exists_get? hrange
  refine ⟨x, by rw [Named.at?_eq hget, hx], ?_⟩
  have hlt : block.shape.position index < block.length := Shape.position_lt hindex
  rw [Grid.get?_of_inRange hrange, hshape, hentries, List.getElem?_take_of_lt hlt,
    List.getElem?_drop] at hx
  exact hx

/-- **A vector is split into the family that is read off it**, and into no other. -/
theorem WellFormed.split_eq_ok_iff (hwf : layout.WellFormed) :
    layout.split flat = .ok arrays ↔ layout.ReadsOff flat arrays := by
  constructor
  · intro h
    by_cases hlen : flat.length = layout.dimension
    · obtain ⟨read, hsplit, hread⟩ := hwf.exists_readsOff hlen
      rw [hsplit] at h
      exact Except.ok.inj h ▸ hread
    · rw [split_eq_error hlen] at h
      cases h
  · intro h
    obtain ⟨read, hsplit, hread⟩ := hwf.exists_readsOff h.length_eq
    rw [hsplit, hread.unique h]

end Layout

end LinearModel
