import LinearModel.Proofs.Layout.Ranges
import LinearModel.Proofs.Layout.RoundTrip
import Mathlib.Data.List.Perm.Basic

/-!
# Blocks in another order

The same blocks can be placed in any order. Each comes to lie elsewhere, but what belongs to it, its
part of a flat vector, does not depend on where it lies.

* `place?_eq_ok` — a block is placed wherever nothing speaks against it
* `exists_ofBlocks_of_perm` — blocks that can be placed in one order can be placed in any, and the
  two layouts are rearrangements of one another
* `Rearranged.sameParts_flatMap` — vectors that are made of equal pieces for each block give each
  block the same part
* `Rearranged.sameOutcome_split` — vectors of which each block has the same part are split into the
  same arrays
-/

namespace LinearModel

variable {α : Type}

/-! ## Placing a given block -/

/-- This is the block of the entry as it lies in a layout. -/
structure Placed.Holds (placed : Placed) (entry : String × Block) : Prop where
  name_eq : placed.name = entry.1
  shape_eq : placed.shape = entry.2.shape
  kind_eq : placed.kind = entry.2.kind
  lower_eq : Layout.fitBound entry.2.shape entry.2.lower = .ok placed.lower
  upper_eq : Layout.fitBound entry.2.shape entry.2.upper = .ok placed.upper

/-- The same block, wherever it lies. -/
structure Placed.Alike (block moved : Placed) : Prop where
  name_eq : block.name = moved.name
  shape_eq : block.shape = moved.shape
  lower_eq : block.lower = moved.lower
  upper_eq : block.upper = moved.upper
  kind_eq : block.kind = moved.kind

theorem Placed.Alike.length_eq {block moved : Placed} (h : block.Alike moved) :
    block.length = moved.length := congrArg Shape.size h.shape_eq

namespace Layout

/-- **A block is placed** if its name is new, it is well-formed, and there is room for it. -/
theorem place?_eq_ok {layout : Layout} {entry : String × Block} {placed : Placed}
    (hholds : placed.Holds entry) (hwf : placed.WellFormed) (hname : entry.1 ∉ layout.names)
    (hle : layout.dimension + placed.length ≤ Shape.elementLimit) :
    layout.place? entry.1 entry.2
      = .ok ⟨layout.blocks ++ [{ placed with offset := layout.dimension }],
          layout.dimension + placed.length⟩ := by
  have hshape := hholds.shape_eq
  have hnil : entry.2.shape ≠ [] := hshape ▸ hwf.shape_ne_nil
  have hzero : 0 ∉ entry.2.shape := fun h => Nat.lt_irrefl 0 (hwf.dim_pos 0 (hshape ▸ h))
  have hlength : entry.2.shape.checkedSize = some placed.length := by
    rw [← hshape]
    exact Shape.checkedSize_eq_some_of_le hwf.dim_pos (Nat.le_trans (Nat.le_add_left _ _) hle)
  have hsum : Shape.checkedSize [layout.dimension + placed.length]
      = some (layout.dimension + placed.length) := by
    have hpos : 0 < placed.length := Shape.size_pos hwf.dim_pos
    have hsize : Shape.size [layout.dimension + placed.length]
        = layout.dimension + placed.length := Nat.mul_one _
    rw [Shape.checkedSize_eq_some_of_le (by simp; omega) (by rw [hsize]; exact hle), hsize]
  rw [place?, contains_eq_false_iff.mpr hname]
  simp only [Bool.false_eq_true, if_false, hnil, hzero, hlength, hsum, hholds.lower_eq,
    hholds.upper_eq]
  rw [← hholds.name_eq, ← hholds.shape_eq, ← hholds.kind_eq]
  rfl

/-- Blocks of new names are placed one behind the other as long as there is room. -/
theorem exists_foldlM_place {placed : List Placed} {entries : List (String × Block)}
    (hholds : List.Forall₂ Placed.Holds placed entries)
    (hwf : ∀ block ∈ placed, block.WellFormed) {start : Layout}
    (hnames : (start.names ++ entries.map Prod.fst).Nodup)
    (hle : start.dimension + totalLength placed ≤ Shape.elementLimit) :
    ∃ layout added, entries.foldlM (fun layout entry => layout.place entry.1 entry.2) start
        = .ok layout
      ∧ layout.blocks = start.blocks ++ added ∧ List.Forall₂ Placed.Alike placed added
      ∧ layout.dimension = start.dimension + totalLength placed := by
  induction hholds generalizing start with
  | nil => exact ⟨start, [], rfl, (List.append_nil _).symm, .nil, rfl⟩
  | @cons block entry blocks entries hblock _ ih =>
    rw [totalLength_cons, ← Nat.add_assoc] at hle ⊢
    have hnew : entry.1 ∉ start.names := fun h =>
      (List.nodup_append.mp hnames).2.2 _ h _ List.mem_cons_self rfl
    have hplace := place_eq_ok_iff.mpr (place?_eq_ok hblock (hwf block List.mem_cons_self) hnew
      (Nat.le_trans (Nat.le_add_right _ _) hle))
    -- the name of the block goes over from the entries to the layout
    obtain ⟨layout, added, hfold, hadded, halike, hdimension⟩ :=
      @ih (fun other h => hwf other (List.mem_cons_of_mem _ h))
        ⟨start.blocks ++ [{ block with offset := start.dimension }],
          start.dimension + block.length⟩
        (by simpa [names, hblock.name_eq] using hnames) hle
    refine ⟨layout, { block with offset := start.dimension } :: added,
      (foldlM_cons_ok hplace _).trans hfold, ?_, .cons ⟨rfl, rfl, rfl, rfl, rfl⟩ halike, hdimension⟩
    rw [hadded, List.append_assoc]
    rfl

/-- What has been placed are the blocks of the entries, in their order. -/
theorem exists_holds_of_foldlM_place {entries : List (String × Block)} {start layout : Layout}
    (h : entries.foldlM (fun layout entry => layout.place entry.1 entry.2) start = .ok layout) :
    ∃ added, layout.blocks = start.blocks ++ added ∧ List.Forall₂ Placed.Holds added entries := by
  induction entries generalizing start with
  | nil =>
    cases h
    exact ⟨[], (List.append_nil _).symm, .nil⟩
  | cons entry entries ih =>
    cases hplace : start.place entry.1 entry.2 with
    | error error => rw [foldlM_cons_error hplace] at h; cases h
    | ok next =>
      rw [foldlM_cons_ok hplace] at h
      obtain ⟨added, hadded, hholds⟩ := ih h
      obtain ⟨placed, hname, hshape, hkind, -, hlower, hupper, -, -, -, rfl⟩ :=
        place?_ok_cases (place_eq_ok_iff.mp hplace)
      refine ⟨placed :: added, ?_, .cons ⟨hname, hshape, hkind, hlower, hupper⟩ hholds⟩
      rw [hadded, List.append_assoc]
      rfl

theorem holds_of_ofBlocks {entries : List (String × Block)} {layout : Layout}
    (h : ofBlocks entries = .ok layout) : List.Forall₂ Placed.Holds layout.blocks entries := by
  obtain ⟨added, hadded, hholds⟩ := exists_holds_of_foldlM_place h
  rw [hadded]
  exact hholds

theorem wellFormed_of_ofBlocks {entries : List (String × Block)} {layout : Layout}
    (h : ofBlocks entries = .ok layout) : layout.WellFormed :=
  ofAttempts_of_ofBlocks h ▸ wellFormed_ofAttempts entries

/-! ## Rearrangements -/

/-- Each of the two layouts has the blocks of the other, maybe in another order. -/
structure Rearranged (layout other : Layout) : Prop where
  dimension_eq : layout.dimension = other.dimension
  exists_moved : ∀ block ∈ layout.blocks, ∃ moved ∈ other.blocks, block.Alike moved
  exists_origin : ∀ moved ∈ other.blocks, ∃ block ∈ layout.blocks, block.Alike moved

theorem exists_of_mem_forall₂ {β : Type} {R : α → β → Prop} {xs : List α} {ys : List β}
    (h : List.Forall₂ R xs ys) : ∀ x ∈ xs, ∃ y ∈ ys, R x y := by
  induction h with
  | nil => simp
  | @cons x y xs ys hxy _ ih =>
    intro z hz
    rcases List.mem_cons.mp hz with rfl | hz
    · exact ⟨y, List.mem_cons_self, hxy⟩
    · exact (ih z hz).imp fun _ hw => ⟨List.mem_cons_of_mem _ hw.1, hw.2⟩

theorem map_fst_of_holds {placed : List Placed} {entries : List (String × Block)}
    (h : List.Forall₂ Placed.Holds placed entries) :
    entries.map Prod.fst = placed.map Placed.name := by
  induction h with
  | nil => rfl
  | cons hblock _ ih => rw [List.map_cons, List.map_cons, hblock.name_eq, ih]

/-- **The order of the blocks does not matter for whether they can be placed**, and whatever it is,
the same blocks have been placed afterwards. -/
theorem exists_ofBlocks_of_perm {entries reordered : List (String × Block)}
    (hperm : entries.Perm reordered) {layout : Layout} (h : ofBlocks entries = .ok layout) :
    ∃ other, ofBlocks reordered = .ok other ∧ layout.Rearranged other := by
  have hwf := wellFormed_of_ofBlocks h
  -- the blocks go along with their entries
  obtain ⟨placed, hholds, hplaced⟩ :=
    List.perm_comp_forall₂ hperm.symm (List.Forall₂.flip (holds_of_ofBlocks h))
  have htotal : totalLength placed = layout.dimension := by
    rw [hwf.dimension_eq, totalLength_eq_sum, totalLength_eq_sum]
    exact (hplaced.map Placed.length).sum_eq
  have hnames : (reordered.map Prod.fst).Nodup := by
    rw [map_fst_of_holds hholds.flip]
    exact (hplaced.map Placed.name).nodup_iff.mpr hwf.names_nodup
  obtain ⟨other, added, hother, hadded, halike, hdimension⟩ :=
    @exists_foldlM_place _ _ hholds.flip
      (fun block hmem => hwf.blocks block (hplaced.mem_iff.mp hmem)) empty hnames
      (by rw [htotal]; exact (Nat.zero_add _).symm ▸ hwf.dimension_le)
  have hblocks : other.blocks = added := hadded
  refine ⟨other, hother, ⟨?_, ?_, ?_⟩⟩
  · rw [hdimension, htotal]
    exact (Nat.zero_add _).symm
  · intro block hmem
    obtain ⟨moved, hmoved, hsame⟩ :=
      exists_of_mem_forall₂ halike block (hplaced.mem_iff.mpr hmem)
    exact ⟨moved, hblocks ▸ hmoved, hsame⟩
  · intro moved hmem
    obtain ⟨block, hblock, hsame⟩ :=
      exists_of_mem_forall₂ halike.flip moved (hblocks ▸ hmem)
    exact ⟨block, hplaced.mem_iff.mp hblock, hsame⟩

/-- Blocks of one name are the same block. -/
theorem Rearranged.alike_of_name_eq {layout other : Layout} (h : layout.Rearranged other)
    (hwf : other.WellFormed) {block moved : Placed} (hblock : block ∈ layout.blocks)
    (hmoved : moved ∈ other.blocks) (hname : block.name = moved.name) : block.Alike moved := by
  obtain ⟨counterpart, hmem, hsame⟩ := h.exists_moved block hblock
  have heq : counterpart = moved :=
    List.inj_on_of_nodup_map hwf.names_nodup hmem hmoved (hsame.name_eq.symm.trans hname)
  exact heq ▸ hsame

end Layout

/-! ## Parts of a vector -/

/-- What a flat vector has for the block. -/
def Placed.part (block : Placed) (flat : List α) : List α :=
  (flat.drop block.offset).take block.length

namespace Layout

/-- Each block has the same part of the one vector, where it lies in the one layout, and of the
other, where it lies in the other. -/
def SameParts (layout other : Layout) (flat flat' : List α) : Prop :=
  ∀ block ∈ layout.blocks, ∀ moved ∈ other.blocks, block.name = moved.name →
    block.part flat = moved.part flat'

variable {layout other : Layout}

/-- **Vectors made of equal pieces have the same parts.** -/
theorem Rearranged.sameParts_flatMap (h : layout.Rearranged other) (hwf : layout.WellFormed)
    (hother : other.WellFormed) {piece : Placed → List α}
    (hlen : ∀ block ∈ layout.blocks, (piece block).length = block.length)
    (hpiece : ∀ block moved : Placed, block.Alike moved → piece block = piece moved) :
    SameParts layout other (layout.blocks.flatMap piece) (other.blocks.flatMap piece) := by
  have hlen' : ∀ moved ∈ other.blocks, (piece moved).length = moved.length := by
    intro moved hmoved
    obtain ⟨block, hblock, hsame⟩ := h.exists_origin moved hmoved
    rw [← hpiece block moved hsame, hlen block hblock, hsame.length_eq]
  intro block hblock moved hmoved hname
  calc block.part (layout.blocks.flatMap piece)
      _ = piece block := hwf.tiles.slice_flatMap hlen hblock
      _ = piece moved := hpiece block moved (h.alike_of_name_eq hother hblock hmoved hname)
      _ = moved.part (other.blocks.flatMap piece) :=
        (hother.tiles.slice_flatMap hlen' hmoved).symm

end Layout

/-- The two families have the same array under every name. -/
def Named.Same (arrays arrays' : Named α) : Prop :=
  ∀ name, Named.get? arrays name = Named.get? arrays' name

namespace Layout

variable {layout other : Layout}

theorem get?_eq_none_of_shapes_eq {arrays : Named (Grid α)} (h : arrays.shapes = layout.shapes)
    {name : String} (hname : name ∉ layout.names) : Named.get? arrays name = none := by
  rw [names_eq_map_shapes, ← h, ← Named.names_eq_map_shapes, ← Named.exists_get?_iff] at hname
  exact Option.eq_none_iff_forall_ne_some.mpr fun grid hget => hname ⟨grid, hget⟩

/-- Families with one array for each block are the same if they are block by block. -/
theorem Rearranged.same (h : layout.Rearranged other) {arrays arrays' : Named (Grid α)}
    (hshapes : arrays.shapes = layout.shapes) (hshapes' : arrays'.shapes = other.shapes)
    (hblocks : ∀ block ∈ layout.blocks, ∀ moved ∈ other.blocks, block.Alike moved →
      Named.get? arrays block.name = Named.get? arrays' moved.name) : Named.Same arrays arrays' := by
  intro name
  by_cases hname : name ∈ layout.names
  · obtain ⟨block, hblock, rfl⟩ := List.mem_map.mp hname
    obtain ⟨moved, hmoved, hsame⟩ := h.exists_moved block hblock
    rw [hblocks block hblock moved hmoved hsame, hsame.name_eq]
  · have hname' : name ∉ other.names := by
      intro hmem
      obtain ⟨moved, hmoved, rfl⟩ := List.mem_map.mp hmem
      obtain ⟨block, hblock, hsame⟩ := h.exists_origin moved hmoved
      exact hname (hsame.name_eq ▸ List.mem_map_of_mem hblock)
    rw [get?_eq_none_of_shapes_eq hshapes hname, get?_eq_none_of_shapes_eq hshapes' hname']

/-- **Vectors with the same parts are split into the same arrays**, or else both are refused. -/
theorem Rearranged.sameOutcome_split (h : layout.Rearranged other) (hwf : layout.WellFormed)
    (hother : other.WellFormed) {flat flat' : List α} (hlen : flat.length = flat'.length)
    (hparts : SameParts layout other flat flat') :
    SameOutcome Named.Same (layout.split flat) (other.split flat') := by
  by_cases hdimension : flat.length = layout.dimension
  · have hdimension' : flat'.length = other.dimension := by rw [← hlen, hdimension, h.dimension_eq]
    obtain ⟨arrays, hsplit, hshapes, hslices⟩ := exists_split hwf hdimension
    obtain ⟨arrays', hsplit', hshapes', hslices'⟩ := exists_split hother hdimension'
    rw [hsplit, hsplit']
    refine .ok (h.same hshapes hshapes' fun block hblock moved hmoved hsame => ?_)
    obtain ⟨grid, hget, hshape, hentries⟩ := hslices block hblock
    obtain ⟨grid', hget', hshape', hentries'⟩ := hslices' moved hmoved
    have hpart : grid.entries = grid'.entries := by
      rw [hentries, hentries']
      exact hparts block hblock moved hmoved hsame.name_eq
    rw [hget, hget', Grid.ext (by rw [hshape, hshape', hsame.shape_eq]) hpart]
  · have hdimension' : flat'.length ≠ other.dimension := by rwa [← hlen, ← h.dimension_eq]
    rw [split_eq_error hdimension, split_eq_error hdimension', hlen, h.dimension_eq]
    exact .error _

end Layout

end LinearModel
