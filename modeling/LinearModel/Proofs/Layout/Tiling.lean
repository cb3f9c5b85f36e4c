import LinearModel.Layout.Slices

/-!
# Tilings

The blocks of a layout lie one behind the other: each begins where the one before it ends, and the
last ends at the dimension. `Layout.WellFormed` states this together with what is checked of a
single block, and it holds of every layout that is reached by placing blocks, where a block that is
refused is passed over.

* `wellFormed_ofAttempts` — every reached layout is well-formed
* `Tiles.flatMap_slice` — the slices of a vector at the offsets, put behind one another, are the
  vector again
* `Tiles.slice_flatMap` — the slice at the offset of a block is the piece that the block has given
-/

namespace LinearModel

variable {α : Type}

/-! ## Element counts -/

namespace Shape

theorem foldlM_checkedMul {s : Shape} {start n : Nat} (h : s.foldlM checkedMul start = some n) :
    n = start * s.size := by
  induction s generalizing start with
  | nil => simpa using h.symm
  | cons dim rest ih =>
    rw [List.foldlM_cons] at h
    obtain ⟨product, hmul, hrest⟩ := Option.bind_eq_some_iff.mp h
    rw [checkedMul] at hmul
    split at hmul
    · rw [ih hrest, ← Option.some.inj hmul, size_cons, Nat.mul_assoc]
    · cases hmul

theorem checkedSize_eq_some {s : Shape} {n : Nat} (h : s.checkedSize = some n) :
    n = s.size ∧ n ≤ elementLimit := by
  rw [checkedSize] at h
  split at h
  · next product hfold =>
    split at h
    · next hle =>
      rw [← Option.some.inj h]
      exact ⟨by simpa using foldlM_checkedMul hfold, hle⟩
    · cases h
  · cases h

theorem elementLimit_lt : elementLimit < UInt64.size := by decide

end Shape

/-! ## Blocks behind one another -/

/-- The blocks lie one behind the other, the first at `start`. -/
def Tiles : Nat → List Placed → Prop
  | _, [] => True
  | start, block :: rest => block.offset = start ∧ Tiles (start + block.length) rest

/-- The number of variables of all the blocks. -/
def totalLength : List Placed → Nat
  | [] => 0
  | block :: rest => block.length + totalLength rest

@[simp] theorem totalLength_nil : totalLength [] = 0 := rfl

@[simp] theorem totalLength_cons (block : Placed) (rest : List Placed) :
    totalLength (block :: rest) = block.length + totalLength rest := rfl

theorem totalLength_concat (blocks : List Placed) (block : Placed) :
    totalLength (blocks ++ [block]) = totalLength blocks + block.length := by
  induction blocks with
  | nil => simp
  | cons first rest ih =>
    rw [List.cons_append, totalLength_cons, totalLength_cons, ih, Nat.add_assoc]

/-- Pieces as long as their blocks are together as long as all the blocks. -/
theorem length_flatMap_blocks {blocks : List Placed} {piece : Placed → List α}
    (hlen : ∀ block ∈ blocks, (piece block).length = block.length) :
    (blocks.flatMap piece).length = totalLength blocks := by
  induction blocks with
  | nil => rfl
  | cons first rest ih =>
    rw [List.flatMap_cons, List.length_append, hlen first List.mem_cons_self,
      ih fun block h => hlen block (List.mem_cons_of_mem _ h), totalLength_cons]

namespace Tiles

theorem concat {start : Nat} {blocks : List Placed} {block : Placed} (h : Tiles start blocks)
    (hoffset : block.offset = start + totalLength blocks) : Tiles start (blocks ++ [block]) := by
  induction blocks generalizing start with
  | nil => exact ⟨by simpa using hoffset, trivial⟩
  | cons first rest ih =>
    refine ⟨h.1, ih h.2 ?_⟩
    rw [hoffset, totalLength_cons, Nat.add_assoc]

theorem offset_add_length_le {start : Nat} {blocks : List Placed} (h : Tiles start blocks)
    {block : Placed} (hmem : block ∈ blocks) :
    block.offset + block.length ≤ start + totalLength blocks := by
  induction blocks generalizing start with
  | nil => cases hmem
  | cons first rest ih =>
    rw [totalLength_cons, ← Nat.add_assoc]
    rcases List.mem_cons.mp hmem with rfl | hrest
    · rw [h.1]
      exact Nat.le_add_right _ _
    · exact ih h.2 hrest

/-- **The slices at the offsets cover the vector.** -/
theorem flatMap_slice {start : Nat} {blocks : List Placed} (h : Tiles start blocks)
    {flat : List α} (hlen : flat.length = start + totalLength blocks) :
    blocks.flatMap (fun block => (flat.drop block.offset).take block.length)
      = flat.drop start := by
  induction blocks generalizing start with
  | nil =>
    rw [totalLength_nil, Nat.add_zero] at hlen
    rw [← hlen, List.drop_length]
    rfl
  | cons first rest ih =>
    rw [totalLength_cons, ← Nat.add_assoc] at hlen
    rw [List.flatMap_cons, ih h.2 hlen, h.1, ← List.drop_drop, List.take_append_drop]

/-- **The slice at the offset of a block is the piece of that block**, whatever comes in front. -/
theorem slice_append_flatMap (front : List α) {blocks : List Placed} {piece : Placed → List α}
    (h : Tiles front.length blocks)
    (hlen : ∀ block ∈ blocks, (piece block).length = block.length)
    {block : Placed} (hmem : block ∈ blocks) :
    ((front ++ blocks.flatMap piece).drop block.offset).take block.length = piece block := by
  induction blocks generalizing front with
  | nil => cases hmem
  | cons first rest ih =>
    have hfirst : (piece first).length = first.length := hlen first List.mem_cons_self
    rw [List.flatMap_cons]
    rcases List.mem_cons.mp hmem with rfl | hrest
    · rw [h.1, List.drop_left, ← hfirst, List.take_left]
    -- the piece of the first block joins what is in front
    · rw [← List.append_assoc]
      refine ih _ ?_ (fun other hother => hlen other (List.mem_cons_of_mem _ hother)) hrest
      rw [List.length_append, hfirst]
      exact h.2

theorem slice_flatMap {blocks : List Placed} {piece : Placed → List α} (h : Tiles 0 blocks)
    (hlen : ∀ block ∈ blocks, (piece block).length = block.length)
    {block : Placed} (hmem : block ∈ blocks) :
    ((blocks.flatMap piece).drop block.offset).take block.length = piece block :=
  slice_append_flatMap [] h hlen hmem

/-- The flat place of the element `i` of a block is the offset of the block and `i` more. -/
theorem getElem?_flatMap {blocks : List Placed} {piece : Placed → List α} (h : Tiles 0 blocks)
    (hlen : ∀ block ∈ blocks, (piece block).length = block.length)
    {block : Placed} (hmem : block ∈ blocks) {i : Nat} (hi : i < block.length) :
    (blocks.flatMap piece)[block.offset + i]? = (piece block)[i]? := by
  rw [← slice_flatMap h hlen hmem, List.getElem?_take_of_lt hi, List.getElem?_drop]

end Tiles

/-! ## Well-formed layouts -/

/-- What is checked of a block before it is placed. -/
structure Placed.WellFormed (block : Placed) : Prop where
  shape_ne_nil : block.shape ≠ []
  dim_pos : ∀ dim ∈ block.shape, 0 < dim
  lower_shape : block.lower.shape = block.shape
  upper_shape : block.upper.shape = block.shape

namespace Layout

/-- Distinct names, blocks one behind the other up to the dimension, and no more variables than an
array can hold. -/
structure WellFormed (layout : Layout) : Prop where
  names_nodup : layout.names.Nodup
  tiles : Tiles 0 layout.blocks
  dimension_eq : layout.dimension = totalLength layout.blocks
  dimension_le : layout.dimension ≤ Shape.elementLimit
  blocks : ∀ block ∈ layout.blocks, block.WellFormed

theorem wellFormed_empty : empty.WellFormed where
  names_nodup := List.nodup_nil
  tiles := trivial
  dimension_eq := rfl
  dimension_le := Nat.zero_le _
  blocks := by simp [empty]

theorem WellFormed.offset_add_length_le {layout : Layout} (hwf : layout.WellFormed)
    {block : Placed} (hmem : block ∈ layout.blocks) :
    block.offset + block.length ≤ layout.dimension := by
  rw [hwf.dimension_eq]
  exact Nat.zero_add (totalLength _) ▸ hwf.tiles.offset_add_length_le hmem

theorem WellFormed.length_le {layout : Layout} (hwf : layout.WellFormed) {block : Placed}
    (hmem : block ∈ layout.blocks) : block.length ≤ Shape.elementLimit :=
  calc block.length ≤ block.offset + block.length := Nat.le_add_left _ _
    _ ≤ layout.dimension := hwf.offset_add_length_le hmem
    _ ≤ Shape.elementLimit := hwf.dimension_le

/-- A vector of the right length is its slices behind one another. -/
theorem WellFormed.flatMap_slice {layout : Layout} (hwf : layout.WellFormed) {flat : List α}
    (hlen : flat.length = layout.dimension) :
    layout.blocks.flatMap (fun block => (flat.drop block.offset).take block.length) = flat := by
  rw [hwf.tiles.flatMap_slice (by rw [hlen, hwf.dimension_eq, Nat.zero_add]), List.drop_zero]

/-! ## Looking up -/

theorem contains_eq_false_iff {layout : Layout} {name : String} :
    layout.contains name = false ↔ name ∉ layout.names := by
  simp [contains, find?, names]

/-! ## Placing -/

theorem shape_of_fitBound {shape : Shape} {bound : Dense} {tensor : Tensor}
    (h : fitBound shape bound = .ok tensor) : tensor.shape = shape := by
  rw [fitBound] at h
  split at h
  · next hfit => rw [← Except.ok.inj h]; exact Dense.shape_of_fit hfit
  · cases h

/-- What placing a block has checked, and where the block is put. -/
theorem place?_ok_cases {layout next : Layout} {name : String} {block : Block}
    (h : layout.place? name block = .ok next) :
    ∃ placed : Placed, placed.name = name ∧ placed.shape = block.shape ∧ placed.kind = block.kind
      ∧ placed.offset = layout.dimension ∧ fitBound block.shape block.lower = .ok placed.lower
      ∧ fitBound block.shape block.upper = .ok placed.upper ∧ placed.WellFormed
      ∧ name ∉ layout.names
      ∧ layout.dimension + placed.length ≤ Shape.elementLimit
      ∧ next = ⟨layout.blocks ++ [placed], layout.dimension + placed.length⟩ := by
  rw [place?] at h
  -- one check after the other, in the order in which they are made
  split at h
  · cases h
  next hcontains =>
  split at h
  · cases h
  next hnil =>
  split at h
  · cases h
  next hzero =>
  split at h
  · cases h
  next length hlength =>
  split at h
  · cases h
  next dimension hdimension =>
  cases hlower : fitBound block.shape block.lower with
  | error fault => rw [hlower] at h; cases h
  | ok lower =>
  cases hupper : fitBound block.shape block.upper with
  | error fault => rw [hlower, hupper] at h; cases h
  | ok upper =>
  rw [hlower, hupper] at h
  obtain ⟨hsize, -⟩ := Shape.checkedSize_eq_some hlength
  obtain ⟨hsum, hle⟩ := Shape.checkedSize_eq_some hdimension
  rw [Shape.size_cons, Shape.size_nil, Nat.mul_one, hsize] at hsum
  refine ⟨⟨name, block.shape, lower, upper, block.kind, layout.dimension⟩, rfl, rfl, rfl, rfl,
    rfl, rfl, ⟨hnil, ?_, shape_of_fitBound hlower, shape_of_fitBound hupper⟩,
    contains_eq_false_iff.mp (by simpa using hcontains), hsum ▸ hle, ?_⟩
  · exact fun dim hdim => Nat.pos_of_ne_zero fun h0 => hzero (h0 ▸ hdim)
  · rw [← Except.ok.inj h, hsum]
    rfl

theorem WellFormed.place? {layout next : Layout} (hwf : layout.WellFormed) {name : String}
    {block : Block} (h : layout.place? name block = .ok next) : next.WellFormed := by
  obtain ⟨placed, hname, -, -, hoffset, -, -, hplaced, hnew, hle, rfl⟩ := place?_ok_cases h
  constructor
  · rw [names, List.map_append, List.map_singleton, hname]
    exact List.nodup_append.mpr ⟨hwf.names_nodup, by simp, fun a ha b hb he =>
      hnew (by rw [← List.mem_singleton.mp hb, ← he]; exact ha)⟩
  · exact hwf.tiles.concat (by rw [hoffset, hwf.dimension_eq, Nat.zero_add])
  · rw [totalLength_concat, ← hwf.dimension_eq]
  · exact hle
  · intro other hother
    rcases List.mem_append.mp hother with hold | hlast
    · exact hwf.blocks other hold
    · rw [List.mem_singleton.mp hlast]
      exact hplaced

/-! ## Reached layouts -/

/-- The layout with one more block, or as it was if the block is refused. -/
def attempt (layout : Layout) (entry : String × Block) : Layout :=
  match layout.place entry.1 entry.2 with
  | .ok next => next
  | .error _ => layout

/-- The layout that is reached by placing blocks in order; those that are refused are passed over.
-/
def ofAttempts (attempts : List (String × Block)) : Layout := attempts.foldl attempt empty

theorem place_eq_ok_iff {layout next : Layout} {name : String} {block : Block} :
    layout.place name block = .ok next ↔ layout.place? name block = .ok next := by
  unfold place
  split
  · next h => rw [h, Except.ok.injEq, Except.ok.injEq]
  · next h => rw [h]; exact ⟨nofun, nofun⟩

theorem WellFormed.attempt {layout : Layout} (hwf : layout.WellFormed) (entry : String × Block) :
    (layout.attempt entry).WellFormed := by
  unfold Layout.attempt
  split
  · next h => exact hwf.place? (place_eq_ok_iff.mp h)
  · exact hwf

/-- **Every layout that is reached by placing blocks is well-formed.** -/
theorem wellFormed_ofAttempts (attempts : List (String × Block)) :
    (ofAttempts attempts).WellFormed := by
  have hfold : ∀ (entries : List (String × Block)) (layout : Layout), layout.WellFormed →
      (entries.foldl attempt layout).WellFormed := by
    intro entries
    induction entries with
    | nil => exact fun _ hwf => hwf
    | cons entry rest ih => exact fun layout hwf => ih _ (hwf.attempt entry)
  exact hfold attempts empty wellFormed_empty

theorem foldl_attempt_of_foldlM {blocks : List (String × Block)} {start layout : Layout}
    (h : blocks.foldlM (fun layout entry => layout.place entry.1 entry.2) start = .ok layout) :
    blocks.foldl attempt start = layout := by
  induction blocks generalizing start with
  | nil => exact Except.ok.inj h
  | cons entry rest ih =>
    rw [List.foldlM_cons] at h
    rw [List.foldl_cons, attempt]
    cases hplace : start.place entry.1 entry.2 with
    | error error => rw [hplace] at h; cases h
    | ok next => rw [hplace] at h; exact ih h

/-- Where no block is refused, all are placed. -/
theorem ofAttempts_of_ofBlocks {blocks : List (String × Block)} {layout : Layout}
    (h : ofBlocks blocks = .ok layout) : ofAttempts blocks = layout :=
  foldl_attempt_of_foldlM h

end Layout

end LinearModel
