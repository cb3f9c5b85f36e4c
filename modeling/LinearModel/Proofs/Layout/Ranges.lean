import LinearModel.Proofs.Layout.Tiling
import Mathlib.Algebra.BigOperators.Group.List.Basic
import Mathlib.Algebra.GroupWithZero.Nat
import Mathlib.Data.List.Induction
import Mathlib.Data.List.Nodup

/-!
# Flat ranges

Each block takes a range of flat indices. In every layout that is reached by placing blocks, the
ranges follow one another without a gap and without an overlap up to the dimension, and placing more
blocks moves none of them.

* `Tiles.flatMap_range` — the ranges behind one another are all the indices
* `blocks_isPrefix_ofAttempts` — what has been placed stays where it is
* `ofAttempts_partitioned` — all that is fixed of a reached layout
-/

namespace LinearModel

/-- The flat indices of the variables of the block. -/
def Placed.range (block : Placed) : List Nat := List.range' block.offset block.length

/-! ## Element counts -/

namespace Shape

theorem size_eq_prod (s : Shape) : s.size = s.prod := by
  induction s with
  | nil => rfl
  | cons dim rest ih => rw [size_cons, ih, List.prod_cons]

/-- Where the whole product is a word, so is every partial one, as no dimension is zero. -/
theorem foldlM_checkedMul_eq_some {s : Shape} (hpos : ∀ dim ∈ s, 0 < dim) {start : Nat}
    (h : start * s.size < UInt64.size) : s.foldlM checkedMul start = some (start * s.size) := by
  induction s generalizing start with
  | nil => simp
  | cons dim rest ih =>
    have hrest : ∀ d ∈ rest, 0 < d := fun d hd => hpos d (List.mem_cons_of_mem _ hd)
    rw [size_cons, ← Nat.mul_assoc] at h
    have hpartial : start * dim < UInt64.size :=
      Nat.lt_of_le_of_lt (Nat.le_mul_of_pos_right _ (size_pos hrest)) h
    rw [List.foldlM_cons, checkedMul, if_pos hpartial]
    exact (ih hrest h).trans (by rw [size_cons, Nat.mul_assoc])

theorem checkedSize_eq_some_of_le {s : Shape} (hpos : ∀ dim ∈ s, 0 < dim)
    (hle : s.size ≤ elementLimit) : s.checkedSize = some s.size := by
  have hword : 1 * s.size < UInt64.size := by
    rw [Nat.one_mul]
    exact Nat.lt_of_le_of_lt hle elementLimit_lt
  rw [checkedSize, foldlM_checkedMul_eq_some hpos hword, Nat.one_mul]
  exact if_pos hle

end Shape

/-! ## Ranges behind one another -/

theorem totalLength_eq_sum (blocks : List Placed) :
    totalLength blocks = (blocks.map Placed.length).sum := by
  induction blocks with
  | nil => rfl
  | cons first rest ih => rw [totalLength_cons, ih, List.map_cons, List.sum_cons]

namespace Tiles

variable {start : Nat} {blocks : List Placed}

/-- A block begins where those in front of it end. -/
theorem offset_eq {before after : List Placed} {block : Placed}
    (h : Tiles start (before ++ block :: after)) :
    block.offset = start + (before.map Placed.length).sum := by
  induction before generalizing start with
  | nil => exact h.1
  | cons first rest ih => rw [ih h.2, List.map_cons, List.sum_cons, Nat.add_assoc]

/-- **The ranges behind one another are all the indices.** -/
theorem flatMap_range (h : Tiles start blocks) :
    blocks.flatMap Placed.range = List.range' start (totalLength blocks) := by
  induction blocks generalizing start with
  | nil => rfl
  | cons first rest ih =>
    rw [List.flatMap_cons, ih h.2, Placed.range, h.1, List.range'_append_1, totalLength_cons]

theorem pairwise_disjoint (h : Tiles start blocks) :
    blocks.Pairwise fun first second => first.range.Disjoint second.range := by
  have hnd : (blocks.flatMap Placed.range).Nodup := by
    rw [h.flatMap_range]
    exact List.nodup_range'
  exact (List.nodup_flatMap.mp hnd).2

end Tiles

/-! ## What is fixed of a layout -/

namespace Layout

/-- The numbers below the dimension, cut into one range for each block: in the order of the blocks,
without a gap and without an overlap, and all of them small enough to be counted by a word. -/
structure Partitioned (layout : Layout) : Prop where
  names_nodup : layout.names.Nodup
  offset_eq : ∀ before block after, layout.blocks = before ++ block :: after →
    block.offset = (before.map Placed.length).sum
  length_eq : ∀ block ∈ layout.blocks, block.length = block.shape.prod
  length_pos : ∀ block ∈ layout.blocks, 1 ≤ block.length
  /-- No product on the way to the length is too large for a word. -/
  counted : ∀ block ∈ layout.blocks, block.shape.checkedSize = some block.length
  dimension_eq : layout.dimension = (layout.blocks.map Placed.length).sum
  ranges_eq : layout.blocks.flatMap Placed.range = List.range layout.dimension
  ranges_disjoint : layout.blocks.Pairwise fun first second =>
    first.range.Disjoint second.range
  range_end_le : ∀ block ∈ layout.blocks, block.offset + block.length ≤ layout.dimension
  range_end_lt : ∀ block ∈ layout.blocks, block.offset + block.length < UInt64.size
  /-- The bytes of one number for each variable are counted by a signed word. -/
  bytes_le : layout.dimension * 8 ≤ 2 ^ 63 - 1
  lower_shape : ∀ block ∈ layout.blocks, block.lower.shape = block.shape
  upper_shape : ∀ block ∈ layout.blocks, block.upper.shape = block.shape

theorem WellFormed.partitioned {layout : Layout} (hwf : layout.WellFormed) :
    layout.Partitioned := by
  have hend : ∀ block ∈ layout.blocks, block.offset + block.length ≤ layout.dimension :=
    fun block hblock => hwf.offset_add_length_le hblock
  have hblocks := hwf.blocks
  constructor
  · exact hwf.names_nodup
  · intro before block after h
    exact (h ▸ hwf.tiles).offset_eq.trans (Nat.zero_add _)
  · exact fun block _ => block.shape.size_eq_prod
  · exact fun block hblock => Shape.size_pos (hblocks block hblock).dim_pos
  · exact fun block hblock =>
      Shape.checkedSize_eq_some_of_le (hblocks block hblock).dim_pos (hwf.length_le hblock)
  · rw [hwf.dimension_eq, totalLength_eq_sum]
  · rw [hwf.tiles.flatMap_range, ← hwf.dimension_eq, List.range_eq_range']
  · exact hwf.tiles.pairwise_disjoint
  · exact hend
  · intro block hblock
    calc block.offset + block.length ≤ layout.dimension := hend block hblock
      _ ≤ Shape.elementLimit := hwf.dimension_le
      _ < UInt64.size := Shape.elementLimit_lt
  · have hle := hwf.dimension_le
    have hlimit : Shape.elementLimit * 8 ≤ 2 ^ 63 - 1 := by decide
    omega
  · exact fun block hblock => (hblocks block hblock).lower_shape
  · exact fun block hblock => (hblocks block hblock).upper_shape

/-! ## What stays -/

theorem blocks_isPrefix_attempt (layout : Layout) (entry : String × Block) :
    layout.blocks <+: (layout.attempt entry).blocks := by
  unfold attempt
  split
  · next next hplace =>
    obtain ⟨placed, -, -, -, -, -, -, -, -, -, rfl⟩ := place?_ok_cases (place_eq_ok_iff.mp hplace)
    exact List.prefix_append _ _
  · exact List.prefix_rfl

/-- **Placing more blocks leaves those that have been placed where they are.** -/
theorem blocks_isPrefix_ofAttempts (attempts later : List (String × Block)) :
    (ofAttempts attempts).blocks <+: (ofAttempts (attempts ++ later)).blocks := by
  have hfold : ∀ (entries : List (String × Block)) (layout : Layout),
      layout.blocks <+: (entries.foldl attempt layout).blocks := by
    intro entries
    induction entries with
    | nil => exact fun _ => List.prefix_rfl
    | cons entry rest ih => exact fun layout => (layout.blocks_isPrefix_attempt entry).trans (ih _)
  rw [ofAttempts, ofAttempts, List.foldl_append]
  exact hfold later _

/-- A placed block has been placed before, or it is the block that is tried, with its bounds as
arrays. -/
theorem mem_blocks_attempt {layout : Layout} {name : String} {block : Block} {placed : Placed}
    (h : placed ∈ (layout.attempt (name, block)).blocks) :
    placed ∈ layout.blocks
      ∨ placed.name = name ∧ placed.shape = block.shape ∧ placed.kind = block.kind
        ∧ fitBound block.shape block.lower = .ok placed.lower
        ∧ fitBound block.shape block.upper = .ok placed.upper := by
  unfold attempt at h
  split at h
  · next next hplace =>
    obtain ⟨last, hname, hshape, hkind, -, hlower, hupper, -, -, -, rfl⟩ :=
      place?_ok_cases (place_eq_ok_iff.mp hplace)
    rcases List.mem_append.mp h with hmem | hlast
    · exact .inl hmem
    · rw [List.mem_singleton.mp hlast]
      exact .inr ⟨hname, hshape, hkind, hlower, hupper⟩
  · exact .inl h

theorem find?_of_isPrefix {layout larger : Layout} (h : layout.blocks <+: larger.blocks)
    {name : String} {block : Placed} (hfind : layout.find? name = some block) :
    larger.find? name = some block := by
  obtain ⟨added, hadded⟩ := h
  unfold find? at hfind ⊢
  rw [← hadded, List.find?_append, hfind]
  rfl

/-- **The flat layout.** Whatever blocks are placed and whichever of them are refused, the ranges of
the blocks partition the indices below the dimension. Whatever is tried later, a block that has been
placed stays as it is; where a block is placed, it comes behind all others. -/
theorem ofAttempts_partitioned (attempts : List (String × Block)) :
    let layout := ofAttempts attempts
    layout.Partitioned
      ∧ (∀ later, layout.blocks <+: (ofAttempts (attempts ++ later)).blocks
        ∧ ∀ name block, layout.find? name = some block →
          (ofAttempts (attempts ++ later)).find? name = some block)
      ∧ ∀ name block next, layout.place name block = .ok next →
        ∃ placed : Placed, next.blocks = layout.blocks ++ [placed]
          ∧ next.dimension = layout.dimension + placed.length
          ∧ placed.name = name ∧ placed.shape = block.shape ∧ placed.kind = block.kind
          ∧ fitBound block.shape block.lower = .ok placed.lower
          ∧ fitBound block.shape block.upper = .ok placed.upper
          ∧ placed.offset = layout.dimension := by
  intro layout
  refine ⟨(wellFormed_ofAttempts attempts).partitioned, fun later => ⟨?_, ?_⟩, ?_⟩
  · exact blocks_isPrefix_ofAttempts attempts later
  · exact fun name block => find?_of_isPrefix (blocks_isPrefix_ofAttempts attempts later)
  · intro name block next h
    obtain ⟨placed, hname, hshape, hkind, hoffset, hlower, hupper, -, -, -, rfl⟩ :=
      place?_ok_cases (place_eq_ok_iff.mp h)
    exact ⟨placed, rfl, rfl, hname, hshape, hkind, hlower, hupper, hoffset⟩

end Layout

end LinearModel
