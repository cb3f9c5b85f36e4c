import LinearModel.Proofs.Draft.Shapes
import LinearModel.Proofs.Shape.RowMajor
import Mathlib.Data.List.Induction
import Mathlib.Data.List.Nodup

/-!
# Writing as editing

Each way of writing, where it succeeds, is a list of edits: a coefficient is put into its cell, and
an array takes the place of the one that was there. A list of edits makes of each array what the
edits under its name make of it, one after the other.

* `writeEdits_eq_edited` — the draft after a list of edits, array by array
* `writeItems_eq_writeEdits`, `writeArrays_eq_writeEdits` — the other two ways as lists of edits
* `entries_puts` — after coefficients have been put into cells, each element is the last value that
  was put there, or what it was before
-/

namespace LinearModel

/-! ## Two edits -/

namespace Edit

/-- A value is put into a cell; a cell outside of the array changes nothing. -/
def put (cell : Cell) (value : Binary64) : Edit where
  apply t :=
    match cell.locate? t.shape with
    | some index => t.set index value
    | none => t
  shape_apply t := by
    split
    · exact Grid.shape_set ..
    · rfl

theorem entries_put {cell : Cell} {t : Tensor} (hsize : t.shape.size < UInt64.size)
    (hcell : cell.Within t.shape) (value : Binary64) :
    ((put cell value).apply t).entries = t.entries.set (cell.number t.shape) value := by
  obtain ⟨index, hindex, hrange, hposition⟩ := Cell.exists_locate? hsize hcell
  simp only [put, hindex]
  rw [Grid.entries_set hrange, hposition]

/-- The array that the values stand for takes the place of the old one; values of another shape
change nothing. -/
def replace (values : Dense) : Edit where
  apply t :=
    match values.fit t.shape with
    | .ok tensor => tensor
    | .error _ => t
  shape_apply t := by
    split
    · next h => exact Dense.shape_of_fit h
    · rfl

theorem apply_foldl_andThen (edits : List Edit) (first : Edit) (t : Tensor) :
    (edits.foldl andThen first).apply t
      = edits.foldl (fun t edit => edit.apply t) (first.apply t) := by
  induction edits generalizing first with
  | nil => rfl
  | cons edit edits ih => exact ih (first.andThen edit)

theorem apply_sequence (edits : List Edit) (t : Tensor) :
    (sequence edits).apply t = edits.foldl (fun t edit => edit.apply t) t :=
  apply_foldl_andThen edits keep t

end Edit

/-- The values have the shape, if they have one. -/
def Dense.Matches (shape : Shape) : Dense → Prop
  | .uniform _ => True
  | .explicit array => array.shape = shape

theorem Dense.Matches.exists_fit {shape : Shape} {values : Dense} (h : values.Matches shape) :
    ∃ tensor, values.fit shape = .ok tensor ∧ tensor.shape = shape := by
  cases values with
  | uniform value => exact ⟨_, rfl, rfl⟩
  | explicit array => exact ⟨array.inOrder, if_pos h, h⟩

/-! ## A draft after edits -/

namespace Draft

/-- The edits under one name, in order. -/
def editsFor (name : String) (edits : List (String × Edit)) : List Edit :=
  (edits.filter fun entry => entry.1 = name).map Prod.snd

/-- Each array edited by what stands under its name. -/
def edited (edits : List (String × Edit)) (draft : Draft) : Draft :=
  ⟨draft.arrays.map fun entry =>
    (entry.1, (Edit.sequence (editsFor entry.1 edits)).apply entry.2)⟩

theorem writeEdit_eq_ok {draft : Draft} (hnd : (Named.names draft.arrays).Nodup) {name : String}
    (hname : name ∈ Named.names draft.arrays) (edit : Edit) :
    draft.writeEdit name edit = .ok ⟨draft.arrays.map fun entry =>
      if entry.1 = name then (entry.1, edit.apply entry.2) else entry⟩ := by
  obtain ⟨old, hold⟩ := Named.exists_get?_iff.mpr hname
  rw [writeEdit, change_eq_map hold, ← Named.insert_eq_map hnd hold]
  rfl

theorem names_map_edit (arrays : Named Tensor) (name : String) (edit : Edit) :
    Named.names (arrays.map fun entry =>
      if entry.1 = name then (entry.1, edit.apply entry.2) else entry) = Named.names arrays := by
  rw [Named.names, Named.names, List.map_map]
  refine List.map_congr_left fun entry _ => ?_
  by_cases h : entry.1 = name <;> simp [h]

/-- **Edits go array by array.** -/
theorem writeEdits_eq_edited {edits : List (String × Edit)} {draft : Draft}
    (hnd : (Named.names draft.arrays).Nodup)
    (hnames : ∀ entry ∈ edits, entry.1 ∈ Named.names draft.arrays) :
    Program.writeEdits edits draft = (.ok (), draft.edited edits) := by
  unfold Program.writeEdits
  induction edits generalizing draft with
  | nil => simp [Program.writeEach, edited, editsFor, Edit.apply_sequence]
  | cons first rest ih =>
    have hfirst := writeEdit_eq_ok hnd (hnames first List.mem_cons_self) first.2
    have hrest : ∀ entry ∈ rest, entry.1 ∈ Named.names draft.arrays :=
      fun entry h => hnames entry (List.mem_cons_of_mem _ h)
    -- the first edit leaves the names, so the rest finds its arrays in what it makes
    rw [← names_map_edit draft.arrays first.1 first.2] at hrest hnd
    rw [Program.writeEach_cons_ok hfirst, ih hnd hrest, edited, edited, List.map_map]
    refine congrArg (fun arrays => (Except.ok (), Draft.mk arrays))
      (List.map_congr_left fun entry _ => ?_)
    by_cases h : entry.1 = first.1
    · simp [h, editsFor, Edit.apply_sequence]
    · simp [h, Ne.symm h, editsFor, Edit.apply_sequence]

/-! ## The other ways of writing -/

theorem writeCell_eq_writeEdit {draft : Draft} {name : String} {tensor : Tensor}
    (hget : Named.get? draft.arrays name = some tensor) (hsize : tensor.shape.size < UInt64.size)
    {cell : Cell} (hcell : cell.Within tensor.shape) (value : Binary64) :
    draft.writeCell name cell value = draft.writeEdit name (.put cell value) := by
  obtain ⟨index, hindex, -, -⟩ := Cell.exists_locate? hsize hcell
  rw [writeCell, writeEdit, change_eq_map hget, change_eq_map hget]
  simp only [Edit.put, hindex]

theorem writeAll_eq_writeEdit {draft : Draft} {name : String} {tensor : Tensor}
    (hget : Named.get? draft.arrays name = some tensor) {values : Dense}
    (hvalues : values.Matches tensor.shape) :
    draft.writeAll name values = draft.writeEdit name (.replace values) := by
  obtain ⟨written, hfit, -⟩ := hvalues.exists_fit
  rw [writeAll, writeEdit, change_eq_map hget, change_eq_map hget]
  simp only [Edit.replace, Dense.resolve, hfit]

end Draft

/-- The coefficient goes into a cell of a block. -/
def Item.Within (layout : Layout) (item : Item) : Prop :=
  ∃ block ∈ layout.blocks, block.name = item.name ∧ item.cell.Within block.shape

instance (layout : Layout) (item : Item) : Decidable (item.Within layout) :=
  inferInstanceAs (Decidable (∃ block ∈ layout.blocks, block.name = item.name ∧ _))

/-- The edit of the item's block that the item is. -/
def Item.edit (item : Item) : Edit := .put item.cell item.value

namespace Layout.WellFormed

variable {layout : Layout}

theorem size_lt (hwf : layout.WellFormed) {block : Placed} (hmem : block ∈ layout.blocks) :
    block.shape.size < UInt64.size :=
  Nat.lt_of_le_of_lt (hwf.length_le hmem) Shape.elementLimit_lt

theorem eq_of_name_eq (hwf : layout.WellFormed) {block other : Placed}
    (hblock : block ∈ layout.blocks) (hother : other ∈ layout.blocks)
    (h : block.name = other.name) : block = other :=
  List.inj_on_of_nodup_map hwf.names_nodup hblock hother h

/-- Coefficients that go into cells are edits. -/
theorem writeItems_eq_writeEdits (hwf : layout.WellFormed) {items : List Item}
    (hitems : ∀ item ∈ items, item.Within layout) {draft : Draft} (hfits : draft.Fits layout) :
    Program.writeItems items draft
      = Program.writeEdits (items.map fun item => (item.name, item.edit)) draft := by
  refine Program.writeEach_eq_writeEach_map (P := fun draft => draft.Fits layout)
    (fun _ _ _ hfits h => Draft.Fits.writeEdit hfits h) (fun draft hfits item hitem => ?_) hfits
  obtain ⟨block, hblock, hname, hcell⟩ := hitems item hitem
  obtain ⟨tensor, hget, hshape⟩ := hfits.exists_get? hwf.names_nodup hblock
  rw [hname] at hget
  rw [← hshape] at hcell
  exact Draft.writeCell_eq_writeEdit hget (hshape ▸ hwf.size_lt hblock) hcell item.value

/-- Arrays of the right shapes are edits. -/
theorem writeArrays_eq_writeEdits (hwf : layout.WellFormed) {arrays : List (String × Dense)}
    (harrays : ∀ entry ∈ arrays, ∃ block ∈ layout.blocks, block.name = entry.1
      ∧ entry.2.Matches block.shape) {draft : Draft} (hfits : draft.Fits layout) :
    Program.writeArrays arrays draft
      = Program.writeEdits (arrays.map fun entry => (entry.1, .replace entry.2)) draft := by
  refine Program.writeEach_eq_writeEach_map (P := fun draft => draft.Fits layout)
    (fun _ _ _ hfits h => Draft.Fits.writeEdit hfits h) (fun draft hfits entry hentry => ?_) hfits
  obtain ⟨block, hblock, hname, hvalues⟩ := harrays entry hentry
  obtain ⟨tensor, hget, hshape⟩ := hfits.exists_get? hwf.names_nodup hblock
  rw [hname] at hget
  rw [← hshape] at hvalues
  exact Draft.writeAll_eq_writeEdit hget hvalues

end Layout.WellFormed

/-! ## Overwriting -/

/-- The value of the last item whose cell has the number. -/
def lastValue? (items : List Item) (shape : Shape) (number : Nat) : Option Binary64 :=
  (items.filter fun item => item.cell.number shape = number).getLast?.map Item.value

theorem lastValue?_concat (items : List Item) (item : Item) (shape : Shape) (number : Nat) :
    lastValue? (items ++ [item]) shape number
      = if number = item.cell.number shape then some item.value
        else lastValue? items shape number := by
  rw [lastValue?, List.filter_append]
  by_cases h : number = item.cell.number shape
  · simp [h]
  · simp [h, Ne.symm h, lastValue?]

/-- **The last value that is put into a cell is what it holds.** -/
theorem entries_puts {items : List Item} {t : Tensor} (hsize : t.shape.size < UInt64.size)
    (hitems : ∀ item ∈ items, item.cell.Within t.shape) :
    ((Edit.sequence (items.map Item.edit)).apply t).entries
      = (List.range t.shape.size).map fun number =>
        (lastValue? items t.shape number).getD (t.entries.getD number .zero) := by
  induction items using List.reverseRecOn with
  | nil =>
    rw [← t.length_entries]
    exact (map_range_getD t.entries .zero).symm
  | append_singleton items item ih =>
    -- the last item goes over what the ones before it have left
    have hshape : ((Edit.sequence (items.map Item.edit)).apply t).shape = t.shape :=
      Edit.shape_apply _ t
    have hput : ∀ s : Tensor, s.shape = t.shape →
        (item.edit.apply s).entries = s.entries.set (item.cell.number t.shape) item.value := by
      intro s hs
      rw [← hs] at hsize hitems ⊢
      exact Edit.entries_put hsize (hitems item (by simp)) item.value
    rw [List.map_append, Edit.apply_sequence, List.foldl_append]
    show (item.edit.apply ((items.map Item.edit).foldl _ t)).entries = _
    rw [← Edit.apply_sequence, hput _ hshape, ih fun other h => hitems other (by simp [h]),
      set_map_range]
    refine List.map_congr_left fun number _ => ?_
    rw [lastValue?_concat]
    split <;> rfl

end LinearModel
