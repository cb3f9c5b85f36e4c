import LinearModel.Proofs.Layout.Tiling
import LinearModel.Proofs.Traversal

/-!
# Splitting and joining

`split` and `join` undo each other. Which vectors can be split and which families can be joined is
said exactly, with the error in each other case.

* `split_eq_error`, `exists_split` — a vector is split if and only if it has the right length
* `join_eq_ok`, `join_eq_error_iff` — a family is joined if and only if it has an array of the right
  shape for each block, and the first block that has none decides the error
* `split_join_inverse` — the two ways round
-/

namespace LinearModel

variable {α : Type}

/-- The names with the shapes under them. -/
def Named.shapes (arrays : Named (Grid α)) : List (String × Shape) :=
  arrays.map fun entry => (entry.1, entry.2.shape)

theorem Named.names_eq_map_shapes (arrays : Named (Grid α)) :
    Named.names arrays = arrays.shapes.map Prod.fst := by
  simp [Named.names, Named.shapes]

namespace Layout

/-- The names of the blocks with their shapes. -/
def shapes (layout : Layout) : List (String × Shape) :=
  layout.blocks.map fun block => (block.name, block.shape)

theorem names_eq_map_shapes (layout : Layout) : layout.names = layout.shapes.map Prod.fst := by
  simp [names, shapes]

/-! ## Splitting -/

theorem split_eq_error {layout : Layout} {flat : List α} (h : flat.length ≠ layout.dimension) :
    layout.split flat = .error (.lengthMismatch layout.dimension flat.length) := if_neg h

/-- A block finds its slice whole in a vector of the right length. -/
theorem exists_slice {layout : Layout} (hwf : layout.WellFormed) {flat : List α}
    (hlen : flat.length = layout.dimension) {block : Placed} (hmem : block ∈ layout.blocks) :
    ∃ grid : Grid α, slice flat block = .ok (block.name, grid) ∧ grid.shape = block.shape
      ∧ grid.entries = (flat.drop block.offset).take block.length := by
  have hle : block.offset + block.length ≤ flat.length := hlen ▸ hwf.offset_add_length_le hmem
  have hsize : ((flat.drop block.offset).take block.length).length = block.shape.size := by
    rw [List.length_take, List.length_drop]
    exact Nat.min_eq_left (Nat.le_sub_of_add_le' hle)
  refine ⟨⟨block.shape, _, hsize⟩, ?_, rfl, rfl⟩
  rw [slice, Grid.ofEntries?, dif_pos hsize]

theorem WellFormed.names_nodup_of_shapes {layout : Layout} (hwf : layout.WellFormed)
    {arrays : Named (Grid α)} (h : arrays.shapes = layout.shapes) :
    (Named.names arrays).Nodup := by
  rw [Named.names_eq_map_shapes, h, ← names_eq_map_shapes]
  exact hwf.names_nodup

/-- **A vector of the right length is split into arrays with the names and shapes of the blocks**,
in their order, each holding the slice of its block. -/
theorem exists_split {layout : Layout} (hwf : layout.WellFormed) {flat : List α}
    (hlen : flat.length = layout.dimension) :
    ∃ arrays, layout.split flat = .ok arrays ∧ arrays.shapes = layout.shapes
      ∧ ∀ block ∈ layout.blocks, ∃ grid, Named.get? arrays block.name = some grid
        ∧ grid.shape = block.shape
        ∧ grid.entries = (flat.drop block.offset).take block.length := by
  -- of each result it is enough to see its name, its shape and its entries
  obtain ⟨arrays, harrays, hview⟩ := exists_mapM_ok (f := slice flat)
    (fun entry => ((entry.1, entry.2.shape), entry.2.entries))
    (fun block => ((block.name, block.shape), (flat.drop block.offset).take block.length))
    fun block hmem => by
      obtain ⟨grid, hslice, hshape, hentries⟩ := exists_slice hwf hlen hmem
      exact ⟨_, hslice, by rw [hshape, hentries]⟩
  have hshapes : Named.shapes arrays = layout.shapes := by
    simpa [Named.shapes, shapes, Function.comp_def] using congrArg (List.map Prod.fst) hview
  refine ⟨arrays, by rw [split, if_pos hlen, harrays], hshapes, fun block hmem => ?_⟩
  have hblock := List.mem_map_of_mem (f := fun block : Placed =>
    ((block.name, block.shape), (flat.drop block.offset).take block.length)) hmem
  rw [← hview] at hblock
  obtain ⟨entry, hentry, heq⟩ := List.mem_map.mp hblock
  simp only [Prod.mk.injEq] at heq
  refine ⟨entry.2, Named.get?_of_mem (hwf.names_nodup_of_shapes hshapes) ?_, heq.1.2, heq.2⟩
  rw [← heq.1.1]
  exact hentry

/-- Each array into which a vector is split is one of a block, with elements of the vector. -/
theorem WellFormed.of_mem_split {layout : Layout} (hwf : layout.WellFormed)
    {flat : List α} {arrays : Named (Grid α)} (hlen : flat.length = layout.dimension)
    (h : layout.split flat = .ok arrays) {entry : String × Grid α} (hentry : entry ∈ arrays) :
    (∃ block ∈ layout.blocks, entry.2.shape = block.shape) ∧ ∀ x ∈ entry.2.entries, x ∈ flat := by
  obtain ⟨read, hread, hshapes, hslices⟩ := exists_split hwf hlen
  obtain rfl : read = arrays := Except.ok.inj (hread.symm.trans h)
  have hmem : (entry.1, entry.2.shape) ∈ layout.shapes :=
    hshapes ▸ List.mem_map_of_mem (f := fun entry => (entry.1, entry.2.shape)) hentry
  obtain ⟨block, hblock, heq⟩ := List.mem_map.mp hmem
  obtain ⟨hname, hshape⟩ := Prod.mk.inj heq
  -- the array is the one that is found under the name of its block
  obtain ⟨grid, hget, -, hentries⟩ := hslices block hblock
  have hfound := Named.get?_of_mem (hwf.names_nodup_of_shapes hshapes) hentry
  obtain rfl : grid = entry.2 := Option.some.inj (hget.symm.trans (hname ▸ hfound))
  refine ⟨⟨block, hblock, hshape.symm⟩, fun x hx => ?_⟩
  rw [hentries] at hx
  exact List.mem_of_mem_drop (List.mem_of_mem_take hx)

/-! ## Joining -/

/-- The family has an array of exactly the shape of the block. -/
def Supplies (values : Named (Grid α)) (block : Placed) : Prop :=
  ∃ grid, Named.get? values block.name = some grid ∧ grid.shape = block.shape

instance (values : Named (Grid α)) (block : Placed) : Decidable (Supplies values block) :=
  decidable_of_iff ((Named.get? values block.name).map Grid.shape = some block.shape)
    Option.map_eq_some_iff

/-- The family has no array for the block or one of another shape, and the error says so. -/
def Lacks (values : Named (Grid α)) (block : Placed) (error : ModelError) : Prop :=
  (Named.get? values block.name = none ∧ error = .unknownBlock block.name)
    ∨ ∃ grid, Named.get? values block.name = some grid ∧ grid.shape ≠ block.shape
      ∧ error = .shapeMismatch block.name block.shape grid.shape

/-- The family without the arrays of other names, in the order of the blocks. -/
def restrict (layout : Layout) (values : Named (Grid α)) : Named (Grid α) :=
  layout.names.filterMap fun name => (Named.get? values name).map (name, ·)

/-- What a family gives for a block; nothing if it has no array for it. -/
def piece (values : Named (Grid α)) (block : Placed) : List α :=
  ((Named.get? values block.name).map Grid.entries).getD []

theorem piece_eq {values : Named (Grid α)} {block : Placed} {grid : Grid α}
    (h : Named.get? values block.name = some grid) : piece values block = grid.entries := by
  rw [piece, h]
  rfl

theorem length_piece {values : Named (Grid α)} {block : Placed} (h : Supplies values block) :
    (piece values block).length = block.length := by
  obtain ⟨grid, hget, hshape⟩ := h
  rw [piece_eq hget, grid.length_entries, hshape]
  rfl

theorem entriesOf_eq_ok {values : Named (Grid α)} {block : Placed} (h : Supplies values block) :
    entriesOf values block = .ok (piece values block) := by
  obtain ⟨grid, hget, hshape⟩ := h
  rw [piece_eq hget, entriesOf, hget]
  exact if_pos hshape

theorem entriesOf_eq_error_iff {values : Named (Grid α)} {block : Placed} {error : ModelError} :
    entriesOf values block = .error error ↔ Lacks values block error := by
  unfold entriesOf Lacks
  cases hget : Named.get? values block.name with
  | none => simp [eq_comm]
  | some grid =>
    by_cases hshape : grid.shape = block.shape
    · simp [hshape]
    · simp [hshape, eq_comm]

theorem supplies_iff {values : Named (Grid α)} {block : Placed} :
    Supplies values block ↔ ∃ entries, entriesOf values block = .ok entries := by
  constructor
  · exact fun h => ⟨_, entriesOf_eq_ok h⟩
  · rintro ⟨entries, h⟩
    unfold entriesOf at h
    split at h
    · cases h
    · next grid hget =>
      split at h
      · next hshape => exact ⟨grid, hget, hshape⟩
      · cases h

theorem join_eq_map (layout : Layout) (values : Named (Grid α)) :
    layout.join values = (layout.blocks.mapM (entriesOf values)).map List.flatten := by
  rw [join]
  cases layout.blocks.mapM (entriesOf values) <;> rfl

/-- **A family with an array for each block is joined piece by piece.** -/
theorem join_eq_ok {layout : Layout} {values : Named (Grid α)}
    (h : ∀ block ∈ layout.blocks, Supplies values block) :
    layout.join values = .ok (layout.blocks.flatMap (piece values)) := by
  rw [join_eq_map, mapM_eq_ok_map (piece values) fun block hmem => entriesOf_eq_ok (h block hmem)]
  rfl

/-- **The first block without its array decides the error.** -/
theorem join_eq_error_iff {layout : Layout} {values : Named (Grid α)} {error : ModelError} :
    layout.join values = .error error ↔ ∃ before block after,
      layout.blocks = before ++ block :: after ∧ (∀ earlier ∈ before, Supplies values earlier)
        ∧ Lacks values block error := by
  have hmap : layout.join values = .error error
      ↔ layout.blocks.mapM (entriesOf values) = .error error := by
    rw [join_eq_map]
    cases layout.blocks.mapM (entriesOf values) <;> simp [Except.map]
  simp only [hmap, mapM_eq_error_iff, entriesOf_eq_error_iff, supplies_iff]

theorem supplies_of_join {layout : Layout} {values : Named (Grid α)} {flat : List α}
    (h : layout.join values = .ok flat) : ∀ block ∈ layout.blocks, Supplies values block := by
  intro block hmem
  rw [join_eq_map] at h
  cases hpieces : layout.blocks.mapM (entriesOf values) with
  | error error => rw [hpieces] at h; cases h
  | ok pieces => exact supplies_iff.mpr (forall_of_mapM_ok hpieces block hmem)

/-! ## There and back -/

/-- Joining what a vector has been split into gives the vector. -/
theorem join_of_slices {layout : Layout} (hwf : layout.WellFormed) {flat : List α}
    (hlen : flat.length = layout.dimension) {arrays : Named (Grid α)}
    (h : ∀ block ∈ layout.blocks, ∃ grid, Named.get? arrays block.name = some grid
      ∧ grid.shape = block.shape
      ∧ grid.entries = (flat.drop block.offset).take block.length) :
    layout.join arrays = .ok flat := by
  have hpieces : layout.blocks.map (piece arrays)
      = layout.blocks.map fun block => (flat.drop block.offset).take block.length := by
    refine List.map_congr_left fun block hmem => ?_
    obtain ⟨grid, hget, -, hentries⟩ := h block hmem
    rw [piece_eq hget, hentries]
  rw [join_eq_ok fun block hmem => (h block hmem).imp fun _ hgrid => ⟨hgrid.1, hgrid.2.1⟩,
    List.flatMap_def, hpieces, ← List.flatMap_def, hwf.flatMap_slice hlen]

theorem WellFormed.join_of_split {layout : Layout} (hwf : layout.WellFormed) {flat : List α}
    {arrays : Named (Grid α)} (h : layout.split flat = .ok arrays) :
    layout.join arrays = .ok flat := by
  by_cases hlen : flat.length = layout.dimension
  · obtain ⟨read, hsplit, -, hslices⟩ := exists_split hwf hlen
    rw [← Except.ok.inj (hsplit.symm.trans h)]
    exact join_of_slices hwf hlen hslices
  · rw [split_eq_error hlen] at h
    cases h

theorem length_of_join {layout : Layout} (hwf : layout.WellFormed) {values : Named (Grid α)}
    (h : ∀ block ∈ layout.blocks, Supplies values block) :
    (layout.blocks.flatMap (piece values)).length = layout.dimension := by
  rw [hwf.dimension_eq]
  exact length_flatMap_blocks fun block hmem => length_piece (h block hmem)

/-- Splitting what a family has been joined to gives the family, as far as there are blocks. -/
theorem split_of_pieces {layout : Layout} (hwf : layout.WellFormed) {values : Named (Grid α)}
    (h : ∀ block ∈ layout.blocks, Supplies values block) :
    layout.split (layout.blocks.flatMap (piece values)) = .ok (layout.restrict values) := by
  rw [split, if_pos (length_of_join hwf h), restrict, names, List.filterMap_map]
  refine mapM_eq_ok_filterMap _ fun block hmem => ?_
  obtain ⟨grid, hget, hshape⟩ := h block hmem
  have hslice := hwf.tiles.slice_flatMap (fun other hother => length_piece (h other hother)) hmem
  rw [piece_eq hget] at hslice
  have hsize : grid.entries.length = block.shape.size := by rw [grid.length_entries, hshape]
  refine ⟨(block.name, grid), ?_, by simp [hget]⟩
  rw [slice, hslice, Grid.ofEntries?, dif_pos hsize]
  simp only [Except.ok.injEq, Prod.mk.injEq, true_and]
  exact Grid.ext hshape.symm rfl

/-- **Splitting and joining undo each other.** A vector is split exactly if it is as long as there
are variables, into one array for each block, and joining these gives the vector. A family is
joined exactly if it has an array of the right shape for each block, whatever else it has; the
first block without one decides the error, and splitting the joined vector gives the family of the
blocks' arrays. -/
theorem split_join_inverse (attempts : List (String × Block)) :
    let layout := ofAttempts attempts
    (∀ flat : List α,
      (flat.length ≠ layout.dimension →
        layout.split flat = .error (.lengthMismatch layout.dimension flat.length))
      ∧ (flat.length = layout.dimension → ∃ arrays, layout.split flat = .ok arrays
        ∧ arrays.shapes = layout.shapes ∧ (Named.names arrays).Nodup
        ∧ layout.join arrays = .ok flat))
    ∧ ∀ values : Named (Grid α),
      ((∃ flat, layout.join values = .ok flat)
        ↔ ∀ block ∈ layout.blocks, Supplies values block)
      ∧ (∀ error, layout.join values = .error error ↔ ∃ before block after,
        layout.blocks = before ++ block :: after ∧ (∀ earlier ∈ before, Supplies values earlier)
          ∧ Lacks values block error)
      ∧ ∀ flat, layout.join values = .ok flat →
        flat.length = layout.dimension ∧ layout.split flat = .ok (layout.restrict values) := by
  intro layout
  have hwf : layout.WellFormed := wellFormed_ofAttempts attempts
  refine ⟨fun flat => ⟨split_eq_error, fun hlen => ?_⟩, fun values => ⟨⟨?_, ?_⟩, ?_, ?_⟩⟩
  · obtain ⟨arrays, hsplit, hshapes, hslices⟩ := exists_split hwf hlen
    refine ⟨arrays, hsplit, hshapes, ?_, join_of_slices hwf hlen hslices⟩
    rw [Named.names_eq_map_shapes, hshapes, ← names_eq_map_shapes]
    exact hwf.names_nodup
  · rintro ⟨flat, hjoin⟩
    exact supplies_of_join hjoin
  · exact fun h => ⟨_, join_eq_ok h⟩
  · exact fun error => join_eq_error_iff
  · intro flat hjoin
    have hsupplies := supplies_of_join hjoin
    rw [join_eq_ok hsupplies, Except.ok.injEq] at hjoin
    rw [← hjoin]
    exact ⟨length_of_join hwf hsupplies, split_of_pieces hwf hsupplies⟩

end Layout

end LinearModel
