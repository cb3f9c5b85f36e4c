import LinearModel.Proofs.Draft.Edits
import LinearModel.Proofs.Program.Reachable
import LinearModel.Proofs.Tensor.Strided

/-!
# The three ways of writing a row

Single coefficients, whole arrays and edits of the draft write the same rows.

* `styles_agree` — a list of coefficients, the arrays that hold for each element the last
  coefficient given for it, and the edits that put the coefficients into their cells one by one give
  one row; and each row that is written by arrays can be written by coefficients

All three fill a blank draft with the arrays `overlay items block` (`writeItems_blank`,
`writeArrays_blank`, `writeEdits_blank`). The arrays and the edits may come in any order of the
blocks.
-/

namespace LinearModel

open Program

/-! ## What a list of coefficients stands for -/

/-- The items that go into a block. -/
def itemsOf (block : Placed) (items : List Item) : List Item :=
  items.filter fun item => item.name = block.name

/-- The array of a block that holds for each element the value of the last item that addresses it,
and zero if there is none. -/
def overlay (items : List Item) (block : Placed) : Tensor where
  shape := block.shape
  entries := (List.range block.shape.size).map fun number =>
    (lastValue? (itemsOf block items) block.shape number).getD .zero
  length_entries := by simp

/-- The draft in which every block holds the last values of its items. -/
def overlaid (layout : Layout) (items : List Item) : Draft :=
  ⟨layout.blocks.map fun block => (block.name, overlay items block)⟩

/-- The items of a block, put into their cells one after the other. -/
def puts (items : List Item) (block : Placed) : Edit :=
  .sequence ((itemsOf block items).map Item.edit)

/-- The blocks that some item goes into, each once. -/
structure Mentioned (layout : Layout) (items : List Item) (blocks : List Placed) : Prop where
  names_nodup : (blocks.map Placed.name).Nodup
  mem_iff : ∀ block, block ∈ blocks ↔ block ∈ layout.blocks ∧ ∃ item ∈ items, item.name = block.name

variable {layout : Layout} {items : List Item} {block : Placed}

theorem getD_replicate (n i : Nat) (value : Binary64) :
    (List.replicate n value).getD i value = value := by
  by_cases h : i < n <;> simp [h]

theorem puts_zeros (hwf : layout.WellFormed) (hitems : ∀ item ∈ items, item.Within layout)
    (hblock : block ∈ layout.blocks) :
    (puts items block).apply (.zeros block.shape) = overlay items block := by
  have hcells : ∀ item ∈ itemsOf block items, item.cell.Within block.shape := by
    intro item hitem
    obtain ⟨hmem, hname⟩ := List.mem_filter.mp hitem
    obtain ⟨other, hother, hothername, hcell⟩ := hitems item hmem
    rwa [hwf.eq_of_name_eq hblock hother (by rw [hothername, of_decide_eq_true hname])]
  refine Grid.ext (Edit.shape_apply _ _) ?_
  rw [puts, entries_puts (t := .zeros block.shape) (hwf.size_lt hblock) hcells]
  refine List.map_congr_left fun number _ => ?_
  rw [Tensor.zeros, Tensor.filled, getD_replicate]

/-- A block that no item goes into has zeros. -/
theorem overlay_eq_zeros (h : ∀ item ∈ items, item.name ≠ block.name) :
    overlay items block = .zeros block.shape := by
  have hnone : itemsOf block items = [] := by simpa [itemsOf] using h
  refine Grid.ext rfl ?_
  simp [overlay, hnone, lastValue?, Tensor.zeros, Tensor.filled, List.map_const']

/-! ## A blank draft filled -/

/-- A blank draft after edits, if it is known what they make of the zeros of each block. -/
theorem writeEdits_blank_of_apply (hwf : layout.WellFormed) {edits : List (String × Edit)}
    (hnames : ∀ entry ∈ edits, entry.1 ∈ layout.names) {array : Placed → Tensor}
    (harray : ∀ block ∈ layout.blocks,
      (Edit.sequence (Draft.editsFor block.name edits)).apply (.zeros block.shape) = array block) :
    writeEdits edits (.blank layout)
      = (.ok (), ⟨layout.blocks.map fun block => (block.name, array block)⟩) := by
  have hnames' := (Draft.fits_blank layout).names_eq
  rw [Draft.writeEdits_eq_edited (hnames' ▸ hwf.names_nodup) (hnames' ▸ hnames), Draft.edited,
    Draft.blank, List.map_map]
  refine congrArg (fun arrays => (Except.ok (), Draft.mk arrays))
    (List.map_congr_left fun block hblock => ?_)
  rw [← harray block hblock]
  rfl

theorem name_mem_names (hblock : block ∈ layout.blocks) : block.name ∈ layout.names :=
  List.mem_map_of_mem hblock

theorem writeItems_blank (hwf : layout.WellFormed) (hitems : ∀ item ∈ items, item.Within layout) :
    writeItems items (.blank layout) = (.ok (), overlaid layout items) := by
  rw [hwf.writeItems_eq_writeEdits hitems (Draft.fits_blank layout)]
  refine writeEdits_blank_of_apply hwf (fun entry hentry => ?_) fun block hblock => ?_
  · obtain ⟨item, hitem, rfl⟩ := List.mem_map.mp hentry
    obtain ⟨block, hblock, hname, -⟩ := hitems item hitem
    exact hname ▸ name_mem_names hblock
  · have hedits : Draft.editsFor block.name (items.map fun item => (item.name, item.edit))
        = (itemsOf block items).map Item.edit := by
      simp [Draft.editsFor, itemsOf, List.filter_map, Function.comp_def]
    rw [hedits]
    exact puts_zeros hwf hitems hblock

/-- Of edits that come once for each mentioned block, a block finds its own if it is mentioned. -/
theorem editsFor_mentioned (hwf : layout.WellFormed) (edit : Placed → Edit) {blocks : List Placed}
    (hnd : (blocks.map Placed.name).Nodup) (hsub : ∀ other ∈ blocks, other ∈ layout.blocks)
    (hblock : block ∈ layout.blocks) :
    Draft.editsFor block.name (blocks.map fun other => (other.name, edit other))
      = if block ∈ blocks then [edit block] else [] := by
  -- names decide between the blocks of a layout
  have hsame : blocks.filter (fun other => other.name = block.name)
      = blocks.filter fun other => other = block := by
    refine List.filter_congr fun other hother => decide_eq_decide.mpr ⟨?_, fun h => h ▸ rfl⟩
    exact fun h => hwf.eq_of_name_eq (hsub other hother) hblock h
  rw [Draft.editsFor, List.filter_map, List.map_map]
  show (blocks.filter fun other => other.name = block.name).map edit = _
  rw [hsame, List.filter_eq, (List.Nodup.of_map _ hnd).count]
  split <;> rfl

/-- One edit for each mentioned block, which makes of zeros what the items make of them. -/
theorem writeEdits_blank_of_mentioned (hwf : layout.WellFormed) {blocks : List Placed}
    (hblocks : Mentioned layout items blocks) (edit : Placed → Edit)
    (hedit : ∀ block ∈ blocks, (edit block).apply (.zeros block.shape) = overlay items block) :
    writeEdits (blocks.map fun block => (block.name, edit block)) (.blank layout)
      = (.ok (), overlaid layout items) := by
  have hsub : ∀ block ∈ blocks, block ∈ layout.blocks :=
    fun block h => ((hblocks.mem_iff block).mp h).1
  refine writeEdits_blank_of_apply hwf (fun entry hentry => ?_) fun block hblock => ?_
  · obtain ⟨block, hblock, rfl⟩ := List.mem_map.mp hentry
    exact name_mem_names (hsub block hblock)
  · rw [editsFor_mentioned hwf edit hblocks.names_nodup hsub hblock, Edit.apply_sequence]
    -- a block that is not mentioned keeps its zeros, and no item goes into it
    by_cases hmem : block ∈ blocks
    · rw [if_pos hmem]
      exact hedit block hmem
    · rw [if_neg hmem]
      refine (overlay_eq_zeros fun item hitem hname => ?_).symm
      exact hmem ((hblocks.mem_iff block).mpr ⟨hblock, item, hitem, hname⟩)

theorem writeEdits_blank (hwf : layout.WellFormed) (hitems : ∀ item ∈ items, item.Within layout)
    {blocks : List Placed} (hblocks : Mentioned layout items blocks) :
    writeEdits (blocks.map fun block => (block.name, puts items block)) (.blank layout)
      = (.ok (), overlaid layout items) :=
  writeEdits_blank_of_mentioned hwf hblocks _ fun block hblock =>
    puts_zeros hwf hitems ((hblocks.mem_iff block).mp hblock).1

theorem writeArrays_blank (hwf : layout.WellFormed) {blocks : List Placed}
    (hblocks : Mentioned layout items blocks) :
    writeArrays (blocks.map fun block => (block.name, .explicit (overlay items block)))
        (.blank layout)
      = (.ok (), overlaid layout items) := by
  have harrays : ∀ entry ∈ blocks.map (fun block =>
        (block.name, Dense.explicit (overlay items block))),
      ∃ block ∈ layout.blocks, block.name = entry.1 ∧ entry.2.Matches block.shape := by
    intro entry hentry
    obtain ⟨block, hblock, rfl⟩ := List.mem_map.mp hentry
    exact ⟨block, ((hblocks.mem_iff block).mp hblock).1, rfl, rfl⟩
  rw [hwf.writeArrays_eq_writeEdits harrays (Draft.fits_blank layout), List.map_map]
  exact writeEdits_blank_of_mentioned hwf hblocks
    (fun block => .replace (.explicit (overlay items block))) fun block _ => by
      simp [Edit.replace, Dense.fit, overlay, Tensor.zeros, Tensor.filled]

/-! ## Arrays as coefficients -/

/-- The elements of an array one by one. -/
def itemsOfArray (entry : String × Tensor) : List Item :=
  (List.range entry.2.shape.size).map fun number =>
    ⟨entry.1, .flat number, entry.2.entries.getD number .zero⟩

theorem lastValue?_itemsOfArray (name : String) (tensor : Tensor) {shape : Shape} {number : Nat}
    (h : number < tensor.shape.size) :
    lastValue? (itemsOfArray (name, tensor)) shape number
      = some (tensor.entries.getD number .zero) := by
  have hfilter : (itemsOfArray (name, tensor)).filter
      (fun item => item.cell.number shape = number)
      = [⟨name, .flat number, tensor.entries.getD number .zero⟩] := by
    rw [itemsOfArray, List.filter_map]
    show ((List.range tensor.shape.size).filter fun other => other = number).map _ = _
    rw [List.filter_eq, List.nodup_range.count, if_pos (List.mem_range.mpr h)]
    rfl
  rw [lastValue?, hfilter]
  rfl

/-- Putting the elements of an array one by one is putting the array. -/
theorem puts_itemsOfArray {name : String} {tensor t : Tensor} (hshape : t.shape = tensor.shape)
    (hsize : t.shape.size < UInt64.size) :
    (Edit.sequence ((itemsOfArray (name, tensor)).map Item.edit)).apply t = tensor := by
  refine Grid.ext ((Edit.shape_apply _ t).trans hshape) ?_
  rw [entries_puts hsize, ← map_range_getD tensor.entries .zero, tensor.length_entries, hshape]
  · refine List.map_congr_left fun number hnumber => ?_
    rw [lastValue?_itemsOfArray name tensor (List.mem_range.mp hnumber)]
    rfl
  · intro item hitem
    obtain ⟨number, hnumber, rfl⟩ := List.mem_map.mp hitem
    rw [hshape]
    exact List.mem_range.mp hnumber

/-- Edits of one array are one edit. -/
theorem writeEdits_of_name {draft next : Draft} (hnd : (Named.names draft.arrays).Nodup)
    {name : String} (hname : name ∈ Named.names draft.arrays) {edits : List Edit}
    (h : draft.writeEdit name (.sequence edits) = .ok next) :
    writeEdits (edits.map fun edit => (name, edit)) draft = (.ok (), next) := by
  rw [Draft.writeEdit_eq_ok hnd hname] at h
  rw [Draft.writeEdits_eq_edited hnd, ← Except.ok.inj h, Draft.edited]
  · refine congrArg (fun arrays => (Except.ok (), Draft.mk arrays))
      (List.map_congr_left fun entry _ => ?_)
    by_cases h : entry.1 = name
    · simp [h, Draft.editsFor, List.filter_map, Function.comp_def]
    · simp [h, Ne.symm h, Draft.editsFor, List.filter_map, Function.comp_def, Edit.apply_sequence]
  · intro entry hentry
    obtain ⟨edit, -, rfl⟩ := List.mem_map.mp hentry
    exact hname

theorem within_itemsOfArray {tensor : Tensor} (hblock : block ∈ layout.blocks)
    (hshape : tensor.shape = block.shape) :
    ∀ item ∈ itemsOfArray (block.name, tensor), item.Within layout := by
  intro item hitem
  obtain ⟨number, hnumber, rfl⟩ := List.mem_map.mp hitem
  refine ⟨block, hblock, rfl, ?_⟩
  rw [← hshape]
  exact List.mem_range.mp hnumber

theorem writeItems_itemsOfArray (hwf : layout.WellFormed) {draft : Draft}
    (hfits : draft.Fits layout) (hblock : block ∈ layout.blocks) {values : Dense} {tensor : Tensor}
    (hfit : values.fit block.shape = .ok tensor) :
    ∃ next, draft.writeAll block.name values = .ok next
      ∧ writeItems (itemsOfArray (block.name, tensor)) draft = (.ok (), next) := by
  have hshape := Dense.shape_of_fit hfit
  obtain ⟨old, hget, hold⟩ := hfits.exists_get? hwf.names_nodup hblock
  have hnames : draft.arrays.names = layout.names := hfits.names_eq
  have hedits : (itemsOfArray (block.name, tensor)).map (fun item => (item.name, item.edit))
      = ((itemsOfArray (block.name, tensor)).map Item.edit).map fun edit => (block.name, edit) := by
    simp [itemsOfArray]
  refine ⟨⟨Named.insert draft.arrays block.name tensor⟩, ?_, ?_⟩
  · rw [Draft.writeAll, Draft.change_eq_map hget, Dense.resolve, hold, hfit]
    rfl
  · rw [hwf.writeItems_eq_writeEdits (within_itemsOfArray hblock hshape) hfits, hedits]
    refine writeEdits_of_name (hnames ▸ hwf.names_nodup) (hnames ▸ name_mem_names hblock) ?_
    rw [Draft.writeEdit, Draft.change_eq_map hget,
      puts_itemsOfArray (hold.trans hshape.symm) (hold ▸ hwf.size_lt hblock)]
    rfl

/-- Arrays of the right shapes can be written as coefficients, whatever stands in the draft. -/
theorem exists_items (hwf : layout.WellFormed) {arrays : List (String × Dense)}
    (harrays : ∀ entry ∈ arrays, ∃ block ∈ layout.blocks, block.name = entry.1
      ∧ entry.2.Matches block.shape) :
    ∃ items : List Item, (∀ item ∈ items, item.Within layout) ∧
      ∀ draft : Draft, draft.Fits layout → writeItems items draft = writeArrays arrays draft := by
  induction arrays with
  | nil => exact ⟨[], by simp, fun _ _ => rfl⟩
  | cons entry rest ih =>
    obtain ⟨block, hblock, hname, hmatches⟩ := harrays entry List.mem_cons_self
    obtain ⟨tensor, hfit, hshape⟩ := hmatches.exists_fit
    -- the first array is written out element by element, in front of the items for the rest
    obtain ⟨items, hitems, hwrite⟩ := ih fun other h => harrays other (List.mem_cons_of_mem _ h)
    refine ⟨itemsOfArray (block.name, tensor) ++ items, fun item hitem => ?_, fun draft hfits => ?_⟩
    · rcases List.mem_append.mp hitem with hfirst | hrest
      · exact within_itemsOfArray hblock hshape item hfirst
      · exact hitems item hrest
    · obtain ⟨next, hnext, hfirst⟩ := writeItems_itemsOfArray hwf hfits hblock hfit
      rw [hname] at hnext
      calc writeItems (itemsOfArray (block.name, tensor) ++ items) draft
        _ = writeItems items next := writeEach_append hfirst items
        _ = writeArrays rest next := hwrite next (hfits.writeAll hnext)
        _ = writeArrays (entry :: rest) draft := (writeEach_cons_ok hnext rest).symm

/-! ## The styles -/

/-- **The three ways of writing agree.** Coefficients for cells of the blocks, the arrays of the
last values that they give, and the edits that put them into their cells one after the other append
the same row and change nothing else. Each row of arrays of the right shapes is a row of
coefficients. -/
theorem styles_agree {program : Program} (hreach : program.Reachable) (config : Configuration)
    (rhs : Binary64) (relation : Relation) :
    let next items := appendRow relation rhs
      ((overlaid program.layout items).flatten config.bigM) program
    (∀ (items : List Item) (blocks : List Placed),
      (∀ item ∈ items, item.Within program.layout) → Mentioned program.layout items blocks →
      addItems config items rhs relation program = (.ok (), next items)
        ∧ addArrays config (blocks.map fun block => (block.name, .explicit (overlay items block)))
            rhs relation program = (.ok (), next items)
        ∧ addEdits config (blocks.map fun block => (block.name, puts items block))
            rhs relation program = (.ok (), next items))
      ∧ ∀ arrays : List (String × Dense),
        (∀ entry ∈ arrays, ∃ block ∈ program.layout.blocks,
          block.name = entry.1 ∧ entry.2.Matches block.shape) →
        ∃ items : List Item, (∀ item ∈ items, item.Within program.layout)
          ∧ addArrays config arrays rhs relation program = (.ok (), next items)
          ∧ addItems config items rhs relation program = (.ok (), next items) := by
  have hwf := hreach.sound.layout
  have hidle := hreach.sound.idle
  refine ⟨fun items blocks hitems hblocks => ⟨?_, ?_, ?_⟩, fun arrays harrays => ?_⟩
  · exact Writing.perform_row hidle config (.items items rhs relation) rfl
      (writeItems_blank hwf hitems)
  · exact Writing.perform_row hidle config (.arrays _ rhs relation) rfl
      (writeArrays_blank hwf hblocks)
  · exact Writing.perform_row hidle config (.edits _ rhs relation) rfl
      (writeEdits_blank hwf hitems hblocks)
  · obtain ⟨items, hitems, hsame⟩ := exists_items hwf harrays
    have hwrite := writeItems_blank hwf hitems
    refine ⟨items, hitems, ?_, ?_⟩
    · exact Writing.perform_row hidle config (.arrays arrays rhs relation) rfl
        ((hsame _ (Draft.fits_blank _)).symm.trans hwrite)
    · exact Writing.perform_row hidle config (.items items rhs relation) rfl hwrite

/-- A cell that is addressed by its number and then by its indices holds the second value. -/
theorem styles_agree_twice :
    let program := Program.ofLayout
      (.ofAttempts [("x", .ofShape {} [2, 2]), ("x", .scalar {}), ("y", .scalar {})])
    let items : List Item :=
      [⟨"x", .flat 3, .zero⟩, ⟨"y", .first, .negZero⟩, ⟨"x", .multi [1, 1], .infinity true⟩]
    program.Reachable ∧ (∀ item ∈ items, item.Within program.layout)
      ∧ Mentioned program.layout items program.layout.blocks.reverse
      ∧ addItems {} items .zero .le program
        = addArrays {} (program.layout.blocks.reverse.map fun block =>
            (block.name, .explicit (overlay items block))) .zero .le program := by
  intro program items
  have hreach : program.Reachable := ⟨_, {}, [], rfl⟩
  have hitems : ∀ item ∈ items, item.Within program.layout := by
    decide
  have hblocks : Mentioned program.layout items program.layout.blocks.reverse := by
    have hall : ∀ block ∈ program.layout.blocks, ∃ item ∈ items, item.name = block.name := by
      decide
    refine ⟨by decide, fun block => ?_⟩
    rw [List.mem_reverse]
    exact ⟨fun h => ⟨h, hall block h⟩, fun h => h.1⟩
  have hagree := (styles_agree hreach {} .zero .le).1 items _ hitems hblocks
  exact ⟨hreach, hitems, hblocks, hagree.1.trans hagree.2.1.symm⟩

end LinearModel
