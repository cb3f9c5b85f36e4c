import LinearModel.Proofs.Layout.RoundTrip
import LinearModel.Proofs.Traversal
import LinearModel.Program.Authoring

/-!
# The shapes of a draft

A draft fits a layout if it has an array for each block, under the name and of the shape of the
block and in the order of the blocks. No way of writing changes this, and so erasing a draft gives
the blank one whatever has been written.

* `Program.writeEach_induction` — what each write keeps, writing one after the other keeps
* `Fits.writeItems`, `Fits.writeArrays`, `Fits.writeEdits` — writing keeps names and shapes, also
  where it fails
* `Fits.eraseAll_eq` — an erased draft is blank
-/

namespace LinearModel

/-! ## Entries one after the other -/

namespace Program

variable {α β : Type} {write : Draft → α → Except ModelError Draft} {draft next : Draft} {entry : α}

theorem writeEach_cons_ok (h : write draft entry = .ok next) (rest : List α) :
    writeEach write (entry :: rest) draft = writeEach write rest next := by
  rw [writeEach, h]

theorem writeEach_cons_error {error : ModelError} (h : write draft entry = .error error)
    (rest : List α) : writeEach write (entry :: rest) draft = (.error error, draft) := by
  rw [writeEach, h]

/-- **What each write keeps is kept**, whether all entries are written or one of them cannot be. -/
theorem writeEach_induction {P : Draft → Prop}
    (hwrite : ∀ draft entry next, P draft → write draft entry = .ok next → P next) (h : P draft)
    (entries : List α) : P (writeEach write entries draft).2 := by
  induction entries generalizing draft with
  | nil => exact h
  | cons entry rest ih =>
    cases hentry : write draft entry with
    | error error => rw [writeEach_cons_error hentry]; exact h
    | ok next => rw [writeEach_cons_ok hentry]; exact ih (hwrite draft entry next h hentry)

/-- A run that forgets the draft where it fails gives the same error or the same draft. -/
theorem foldlM_eq_writeEach (entries : List α) (draft : Draft) :
    entries.foldlM write draft = match writeEach write entries draft with
      | (.error error, _) => .error error
      | (.ok (), written) => .ok written := by
  induction entries generalizing draft with
  | nil => rfl
  | cons entry rest ih =>
    cases hentry : write draft entry with
    | error error => rw [writeEach_cons_error hentry, foldlM_cons_error hentry]
    | ok next => rw [writeEach_cons_ok hentry, foldlM_cons_ok hentry, ih]

theorem writeEach_append {first : List α} (hfirst : writeEach write first draft = (.ok (), next))
    (rest : List α) : writeEach write (first ++ rest) draft = writeEach write rest next := by
  induction first generalizing draft with
  | nil =>
    rw [← (Prod.mk.inj hfirst).2]
    rfl
  | cons entry first ih =>
    cases hentry : write draft entry with
    | error error => rw [writeEach_cons_error hentry] at hfirst; cases hfirst
    | ok reached =>
      rw [writeEach_cons_ok hentry] at hfirst
      rw [List.cons_append, writeEach_cons_ok hentry, ih hfirst]

/-- Writes that agree wherever they get to leave the same behind. -/
theorem writeEach_eq_writeEach_map {other : Draft → β → Except ModelError Draft} {view : α → β}
    {P : Draft → Prop}
    (hkeep : ∀ draft entry next, P draft → other draft entry = .ok next → P next)
    {entries : List α}
    (hsame : ∀ draft, P draft → ∀ entry ∈ entries, write draft entry = other draft (view entry))
    (h : P draft) : writeEach write entries draft = writeEach other (entries.map view) draft := by
  induction entries generalizing draft with
  | nil => rfl
  | cons entry rest ih =>
    have hentry := hsame draft h entry List.mem_cons_self
    rw [List.map_cons]
    cases hother : other draft (view entry) with
    | error error =>
      rw [writeEach_cons_error hother, writeEach_cons_error (hentry.trans hother)]
    | ok next =>
      rw [writeEach_cons_ok hother, writeEach_cons_ok (hentry.trans hother)]
      exact ih (fun draft hd last hl => hsame draft hd last (List.mem_cons_of_mem _ hl))
        (hkeep draft _ next h hother)

end Program

namespace Draft

/-- The names and shapes of the arrays are those of the blocks. -/
def Fits (draft : Draft) (layout : Layout) : Prop := Named.shapes draft.arrays = layout.shapes

theorem fits_blank (layout : Layout) : (blank layout).Fits layout := by
  simp [Fits, blank, Named.shapes, Layout.shapes, Tensor.zeros, Tensor.filled, Function.comp_def]

/-- **Erasing leaves nothing but names and shapes.** -/
theorem Fits.eraseAll_eq {draft : Draft} {layout : Layout} (h : draft.Fits layout) :
    draft.eraseAll = blank layout := by
  have := congrArg (List.map fun entry => (entry.1, Tensor.zeros entry.2)) h
  simpa [Named.shapes, Layout.shapes, eraseAll, blank, Function.comp_def] using this

theorem Fits.names_eq {draft : Draft} {layout : Layout} (h : draft.Fits layout) :
    Named.names draft.arrays = layout.names := by
  rw [Named.names_eq_map_shapes, h, Layout.names_eq_map_shapes]

theorem Fits.exists_get? {draft : Draft} {layout : Layout} (h : draft.Fits layout)
    (hnd : layout.names.Nodup) {block : Placed} (hmem : block ∈ layout.blocks) :
    ∃ tensor, Named.get? draft.arrays block.name = some tensor ∧ tensor.shape = block.shape := by
  have hshape : (block.name, block.shape) ∈ layout.shapes := List.mem_map_of_mem hmem
  rw [← h] at hshape
  obtain ⟨entry, hentry, heq⟩ := List.mem_map.mp hshape
  rw [Prod.mk.injEq] at heq
  refine ⟨entry.2, Named.get?_of_mem (h.names_eq ▸ hnd) ?_, heq.2⟩
  rw [← heq.1]
  exact hentry

theorem length_flatMap_arrays {arrays : Named Tensor} {blocks : List Placed}
    (h : Named.shapes arrays = blocks.map fun block => (block.name, block.shape))
    (f : Binary64 → Binary64) :
    (arrays.flatMap fun entry => entry.2.entries.map f).length = totalLength blocks := by
  induction arrays generalizing blocks with
  | nil =>
    rw [List.map_eq_nil_iff.mp h.symm]
    rfl
  | cons entry rest ih =>
    cases blocks with
    | nil => cases h
    | cons block others =>
      obtain ⟨hfirst, hrest⟩ := List.cons.inj h
      have hshape : entry.2.shape = block.shape := (Prod.mk.inj hfirst).2
      rw [List.flatMap_cons, List.length_append, List.length_map, entry.2.length_entries, hshape,
        ih hrest]
      rfl

/-- A flat row has one coefficient for each variable. -/
theorem Fits.length_flatten {draft : Draft} {layout : Layout} (h : draft.Fits layout)
    (hwf : layout.WellFormed) (bigM : Binary64) :
    (draft.flatten bigM).length = layout.dimension := by
  rw [hwf.dimension_eq]
  exact length_flatMap_arrays h _

/-- A flat row into which nothing has been written. -/
theorem flatten_blank {layout : Layout} (hwf : layout.WellFormed) (bigM : Binary64) :
    (blank layout).flatten bigM = List.replicate layout.dimension .zero := by
  refine List.eq_replicate_iff.mpr ⟨(fits_blank layout).length_flatten hwf bigM, fun x hx => ?_⟩
  obtain ⟨entry, hentry, hx⟩ := List.mem_flatMap.mp hx
  obtain ⟨block, -, rfl⟩ := List.mem_map.mp hentry
  obtain ⟨raw, hraw, rfl⟩ := List.mem_map.mp hx
  rw [List.eq_of_mem_replicate hraw]
  rfl

/-- The arrays of a draft, block by block. -/
theorem Fits.flatMap_entries {draft : Draft} {layout : Layout} (h : draft.Fits layout)
    (hnd : layout.names.Nodup) :
    draft.arrays.flatMap (fun entry => entry.2.entries)
      = layout.blocks.flatMap (Layout.piece draft.arrays) := by
  have hnames : Named.names draft.arrays = layout.names := h.names_eq
  -- each array is the one that is found under its name, so it goes by the names alone
  have hentries : draft.arrays.map (fun entry => entry.2.entries)
      = (Named.names draft.arrays).map fun name =>
        ((Named.get? draft.arrays name).map Grid.entries).getD [] := by
    rw [Named.names, List.map_map]
    refine List.map_congr_left fun entry hentry => ?_
    show entry.2.entries = ((Named.get? draft.arrays entry.1).map Grid.entries).getD []
    rw [Named.get?_of_mem (hnames ▸ hnd) hentry]
    rfl
  rw [List.flatMap_def, List.flatMap_def, hentries, hnames, Layout.names, List.map_map]
  rfl

/-- The flat row, block by block. -/
theorem Fits.flatten_eq {draft : Draft} {layout : Layout} (h : draft.Fits layout)
    (hnd : layout.names.Nodup) (bigM : Binary64) :
    draft.flatten bigM = layout.blocks.flatMap fun block =>
      (Layout.piece draft.arrays block).map (·.capInfinity bigM) := by
  have hraw := congrArg (List.map (·.capInfinity bigM)) (h.flatMap_entries hnd)
  rwa [List.map_flatMap, List.map_flatMap] at hraw

theorem Fits.supplies {draft : Draft} {layout : Layout} (h : draft.Fits layout)
    (hnd : layout.names.Nodup) {block : Placed} (hmem : block ∈ layout.blocks) :
    Layout.Supplies draft.arrays block := h.exists_get? hnd hmem

/-! ## Changing one array -/

theorem change_eq_map {draft : Draft} {name : String} {tensor : Tensor}
    (h : Named.get? draft.arrays name = some tensor) (write : Tensor → Except ModelError Tensor) :
    draft.change name write
      = (write tensor).map fun next => ⟨Named.insert draft.arrays name next⟩ := by
  rw [change, array, h]
  show (write tensor >>= fun next => .ok (Draft.mk (Named.insert draft.arrays name next))) = _
  cases write tensor <;> rfl

theorem change_eq_error {draft : Draft} {name : String}
    (h : Named.get? draft.arrays name = none) (write : Tensor → Except ModelError Tensor) :
    draft.change name write = .error (.unknownBlock name) := by
  rw [change, array, h]
  rfl

/-- A change of one array that keeps its shape keeps the shapes of the draft. -/
theorem Fits.change {draft next : Draft} {layout : Layout} (hfits : draft.Fits layout)
    {name : String} {write : Tensor → Except ModelError Tensor}
    (hwrite : ∀ tensor out, write tensor = .ok out → out.shape = tensor.shape)
    (h : draft.change name write = .ok next) : next.Fits layout := by
  cases hget : Named.get? draft.arrays name with
  | none => rw [change_eq_error hget] at h; cases h
  | some tensor =>
    rw [change_eq_map hget] at h
    cases hout : write tensor with
    | error error => rw [hout] at h; cases h
    | ok out =>
      rw [hout] at h
      rw [← Except.ok.inj h]
      exact (Named.map_insert Grid.shape hget (hwrite tensor out hout)).trans hfits

theorem Fits.writeCell {draft next : Draft} {layout : Layout} (hfits : draft.Fits layout)
    {name : String} {cell : Cell} {value : Binary64}
    (h : draft.writeCell name cell value = .ok next) : next.Fits layout := by
  refine hfits.change (fun tensor out hout => ?_) h
  split at hout
  · rw [← Except.ok.inj hout, Grid.shape_set]
  · cases hout

theorem Fits.writeAll {draft next : Draft} {layout : Layout} (hfits : draft.Fits layout)
    {name : String} {values : Dense} (h : draft.writeAll name values = .ok next) :
    next.Fits layout := by
  refine hfits.change (fun tensor out hout => ?_) h
  rw [Dense.resolve] at hout
  split at hout
  · next hfit => rw [← Except.ok.inj hout]; exact Dense.shape_of_fit hfit
  · cases hout

theorem Fits.writeEdit {draft next : Draft} {layout : Layout} (hfits : draft.Fits layout)
    {name : String} {edit : Edit} (h : draft.writeEdit name edit = .ok next) :
    next.Fits layout := by
  refine hfits.change (fun tensor out hout => ?_) h
  rw [← Except.ok.inj hout, edit.shape_apply]

/-! ## Writing one after the other -/

theorem Fits.writeItems {draft : Draft} {layout : Layout} (hfits : draft.Fits layout)
    (items : List Item) : (Program.writeItems items draft).2.Fits layout :=
  Program.writeEach_induction (fun _ _ _ hfits h => Fits.writeCell hfits h) hfits items

theorem Fits.writeArrays {draft : Draft} {layout : Layout} (hfits : draft.Fits layout)
    (arrays : List (String × Dense)) : (Program.writeArrays arrays draft).2.Fits layout :=
  Program.writeEach_induction (fun _ _ _ hfits h => Fits.writeAll hfits h) hfits arrays

theorem Fits.writeEdits {draft : Draft} {layout : Layout} (hfits : draft.Fits layout)
    (edits : List (String × Edit)) : (Program.writeEdits edits draft).2.Fits layout :=
  Program.writeEach_induction (fun _ _ _ hfits h => Fits.writeEdit hfits h) hfits edits

end Draft

end LinearModel
