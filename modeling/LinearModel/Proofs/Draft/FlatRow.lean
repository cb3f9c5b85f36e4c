import LinearModel.Proofs.Draft.Edits
import LinearModel.Proofs.Layout.Parts

/-!
# The flat row of a draft

Each block of a draft that fits its layout has a part of the flat row to itself, which depends on
its array alone.

* `Fits.part_flatten` — the part of a block consists of the elements of its array
* `Fits.part_of_writeEdit` — an edit of a block changes its part and no other
* `Fits.contents_eq_set` — where one element of one array is replaced, so is one of the flat row
* `isBlank_iff` — a blank draft is seen from its flat row

Where infinity stands in for itself, the flat row has the coefficients as they are (`contents`).
-/

namespace LinearModel

/-! ## Numbers as they are -/

namespace Binary64

/-- A number stays as it is where infinity stands in for infinity. -/
theorem capInfinity_infinity (x : Binary64) : x.capInfinity (.infinity false) = x := by
  cases x with
  | infinity negative => cases negative <;> rfl
  | _ => rfl

theorem isZero_iff {x : Binary64} : x.isZero = true ↔ x = .zero ∨ x = .negZero := by
  cases x with
  | real value h => simp [isZero, toRat?, zero]
  | _ => simp [isZero, toRat?, zero]

end Binary64

namespace Draft

/-- The coefficients of all blocks behind one another, as they are. -/
def contents (draft : Draft) : List Binary64 := draft.flatten (.infinity false)

theorem contents_eq (draft : Draft) :
    draft.contents = draft.arrays.flatMap fun entry => entry.2.entries := by
  simp only [contents, flatten, Binary64.capInfinity_infinity, List.map_id']

/-- A draft is blank if each of its coefficients is a zero of either sign. -/
theorem isBlank_iff {draft : Draft} :
    draft.isBlank = true ↔ ∀ x ∈ draft.contents, x = .zero ∨ x = .negZero := by
  simp only [contents_eq, isBlank, List.all_eq_true, List.forall_mem_flatMap, Binary64.isZero_iff]

namespace Fits

variable {draft next : Draft} {layout : Layout} (hfits : draft.Fits layout)
  (hwf : layout.WellFormed) {block : Placed} {tensor : Tensor}

include hfits hwf

/-- **A block has its part of the flat row to itself**: the elements of its array. -/
theorem part_flatten (hblock : block ∈ layout.blocks)
    (hget : Named.get? draft.arrays block.name = some tensor) (bigM : Binary64) :
    block.part (draft.flatten bigM) = tensor.entries.map (·.capInfinity bigM) := by
  rw [hfits.flatten_eq hwf.names_nodup]
  refine (hwf.tiles.slice_flatMap (fun other hother => ?_) hblock).trans ?_
  · rw [List.length_map, Layout.length_piece (hfits.supplies hwf.names_nodup hother)]
  · rw [Layout.piece_eq hget]

theorem part_contents (hblock : block ∈ layout.blocks)
    (hget : Named.get? draft.arrays block.name = some tensor) :
    block.part draft.contents = tensor.entries := by
  rw [contents, hfits.part_flatten hwf hblock hget]
  simp only [Binary64.capInfinity_infinity, List.map_id']

/-- Where the array of a block has been left, so has its part of the flat row. -/
theorem part_flatten_congr (hnext : next.Fits layout) (hblock : block ∈ layout.blocks)
    (hsame : Named.get? next.arrays block.name = Named.get? draft.arrays block.name)
    (bigM : Binary64) : block.part (next.flatten bigM) = block.part (draft.flatten bigM) := by
  obtain ⟨tensor, hget, -⟩ := hfits.exists_get? hwf.names_nodup hblock
  rw [hfits.part_flatten hwf hblock hget, hnext.part_flatten hwf hblock (hsame.trans hget)]

/-- **An edit of a block** changes its part of the flat row, and leaves the arrays of the others. -/
theorem part_of_writeEdit (hblock : block ∈ layout.blocks) {edit : Edit}
    (h : draft.writeEdit block.name edit = .ok next) :
    ∃ tensor, Named.get? draft.arrays block.name = some tensor ∧ tensor.shape = block.shape
      ∧ block.part next.contents = (edit.apply tensor).entries
      ∧ ∀ name, name ≠ block.name → Named.get? next.arrays name = Named.get? draft.arrays name := by
  obtain ⟨tensor, hget, hshape⟩ := hfits.exists_get? hwf.names_nodup hblock
  have hnext : next.Fits layout := hfits.writeEdit h
  rw [Draft.writeEdit, change_eq_map hget] at h
  obtain rfl := Except.ok.inj h
  exact ⟨tensor, hget, hshape, hnext.part_contents hwf hblock (Named.get?_insert_self ..),
    fun name hname => Named.get?_insert_of_ne _ _ hname⟩

/-- One element of one block, seen in the flat row. -/
theorem contents_eq_set (hnext : next.Fits layout) (hblock : block ∈ layout.blocks) {number : Nat}
    (hnumber : number < block.length) {value : Binary64}
    (hpart : block.part next.contents = (block.part draft.contents).set number value)
    (hothers : ∀ name, name ≠ block.name →
      Named.get? next.arrays name = Named.get? draft.arrays name) :
    next.contents = draft.contents.set (block.offset + number) value := by
  have hlen := hfits.length_flatten hwf (.infinity false)
  refine hwf.eq_of_parts (hnext.length_flatten hwf _) (by rwa [List.length_set]) ?_
  intro other hother
  by_cases hsame : other = block
  · rw [hsame, hpart, Placed.part_set]
  · -- the place lies in the range of the block, and so in no other
    have hname : other.name ≠ block.name := fun h => hsame (hwf.eq_of_name_eq hother hblock h)
    have hmem : block.offset + number ∈ block.range :=
      Placed.mem_range_iff.mpr ⟨Nat.le_add_right _ _, Nat.add_lt_add_left hnumber _⟩
    have hnotMem : block.offset + number ∉ other.range :=
      fun h => hsame (hwf.eq_of_mem_range hother hblock h hmem)
    rw [Placed.part_set_of_notMem _ hnotMem]
    exact hfits.part_flatten_congr hwf hnext hother (hothers other.name hname) _

end Fits

end Draft

end LinearModel
