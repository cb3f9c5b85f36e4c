import LinearModel.Proofs.Draft.FlatRow
import LinearModel.Proofs.Program.Overwriting

/-!
# Operations on a draft

A draft is worked on by operations in any order: coefficients, arrays and edits are written, and
single blocks or all of them are erased. Whatever has been done, and whichever operations have been
refused, the draft is laid out as its layout says, and one more operation changes what it says it
changes and nothing else.

* `Operation.apply_eq_error_iff` — an operation fails for what the layout says of it, whatever has
  been done before
* `Operation.fits_work` — every run of operations keeps names, order and shapes
* `Operation.work_filter_admitted` — refused operations leave no trace
* `Operation.others_of_perform`, `Operation.effect_of_apply` — what an operation leaves as it is,
  and what it does where it succeeds
* `Operation.work_laid_out` — all of this after any run

An operation that names a block is an edit of its array (`Operation.apply_eq_writeEdit`), so one
lemma on what an edit does to the flat row is enough for them all (`Fits.part_of_writeEdit`).
-/

namespace LinearModel.Draft

/-! ## Operations -/

/-- One thing that is done to a draft. -/
inductive Operation where
  | write (entry : Writing.Entry)
  | erase (name : String)
  | eraseAll

namespace Operation

/-- The block that is named; erasing all names none. -/
def name? : Operation → Option String
  | write entry => some entry.name
  | erase name => some name
  | eraseAll => none

def apply (draft : Draft) : Operation → Except ModelError Draft
  | write entry => entry.write draft
  | erase name => draft.erase name
  | eraseAll => .ok draft.eraseAll

/-- The answer and the draft that is left, which is the old one if the operation fails. -/
def perform (draft : Draft) (operation : Operation) : Except ModelError Unit × Draft :=
  match operation.apply draft with
  | .ok next => (.ok (), next)
  | .error error => (.error error, draft)

/-- The layout has the block that is named, and it is as the operation takes it to be. -/
def Admitted (layout : Layout) : Operation → Prop
  | write entry => entry.Admitted layout
  | erase name => name ∈ layout.names
  | eraseAll => True

/-- The operation fails, for the reason that the error gives. -/
def Refused (layout : Layout) : Operation → ModelError → Prop
  | write entry, error => entry.Refused layout error
  | erase name, error => name ∉ layout.names ∧ error = .unknownBlock name
  | eraseAll, _ => False

instance (layout : Layout) : DecidablePred (Admitted layout)
  | write entry => inferInstanceAs (Decidable (entry.Admitted layout))
  | erase name => inferInstanceAs (Decidable (name ∈ layout.names))
  | eraseAll => .isTrue trivial

/-- What the operation makes of an array that it is for. -/
def edit : Operation → Edit
  | write (.item written) => written.edit
  | write (.array _ values) => .replace values
  | write (.edit _ change) => change
  | erase _ | eraseAll => .replace (.uniform .zero)

end Operation

/-- The draft that operations leave, one after the other. -/
def work (draft : Draft) (operations : List Operation) : Draft :=
  operations.foldl (fun draft operation => (operation.perform draft).2) draft

namespace Operation

variable {layout : Layout} {draft next : Draft} {operation : Operation}

/-! ## Which operations fail -/

theorem perform_eq_ok (h : operation.apply draft = .ok next) :
    operation.perform draft = (.ok (), next) := by
  rw [perform, h]

theorem perform_eq_error {error : ModelError} (h : operation.apply draft = .error error) :
    operation.perform draft = (.error error, draft) := by
  rw [perform, h]

theorem answer_eq_error_iff {error : ModelError} :
    (operation.perform draft).1 = .error error ↔ operation.apply draft = .error error := by
  rw [perform]
  cases operation.apply draft <;> simp

theorem answer_eq_ok_iff :
    (operation.perform draft).1 = .ok () ↔ ∃ next, operation.apply draft = .ok next := by
  rw [perform]
  cases operation.apply draft <;> simp

theorem forall_not_refused_iff (hwf : layout.WellFormed) :
    (∀ error, ¬ operation.Refused layout error) ↔ operation.Admitted layout := by
  cases operation with
  | write entry => exact Writing.Entry.forall_not_refused_iff hwf
  | erase name => simp [Refused, Admitted]
  | eraseAll => simp [Refused, Admitted]

theorem exists_block_of_admitted {name : String} (hname : operation.name? = some name)
    (h : operation.Admitted layout) : ∃ block ∈ layout.blocks, block.name = name := by
  cases operation with
  | write entry =>
    obtain ⟨block, hblock, hblockname, -⟩ := h
    exact ⟨block, hblock, hblockname.trans (Option.some.inj hname)⟩
  | erase erased =>
    obtain rfl := Option.some.inj hname
    exact List.mem_map.mp h
  | eraseAll => cases hname

section

variable (hwf : layout.WellFormed) (hfits : draft.Fits layout)

include hwf hfits

/-- **An operation fails for what the layout says of it**, whatever has been done before. -/
theorem apply_eq_error_iff {error : ModelError} :
    operation.apply draft = .error error ↔ operation.Refused layout error := by
  cases operation with
  | write entry => exact Writing.Entry.write_eq_error_iff hwf hfits
  | erase name =>
    refine (hfits.change_eq_error_iff hwf (P := fun _ => False) (by simp)).trans ?_
    simp [Refused]
  | eraseAll => simp [apply, Refused]

theorem exists_apply_iff :
    (∃ next, operation.apply draft = .ok next) ↔ operation.Admitted layout := by
  rw [← forall_not_refused_iff hwf]
  simp only [← apply_eq_error_iff hwf hfits]
  cases operation.apply draft <;> simp

/-! ## What an operation does -/

/-- **An operation that names a block is an edit of its array.** -/
theorem apply_eq_writeEdit {name : String} (hname : operation.name? = some name)
    (hadmitted : operation.Admitted layout) :
    operation.apply draft = draft.writeEdit name operation.edit := by
  cases operation with
  | write entry =>
    obtain rfl := Option.some.inj hname
    obtain ⟨block, hblock, hblockname, hsuits⟩ := hadmitted
    obtain ⟨tensor, hget, hshape⟩ := hfits.exists_get? hwf.names_nodup hblock
    rw [hblockname] at hget
    rw [← hshape] at hsuits
    cases entry with
    | item written =>
      exact writeCell_eq_writeEdit hget (hshape ▸ hwf.size_lt hblock) hsuits written.value
    | array name values => exact writeAll_eq_writeEdit hget hsuits
    | edit name change => rfl
  | erase name =>
    obtain rfl := Option.some.inj hname
    rfl
  | eraseAll => cases hname

theorem fits_apply (h : operation.apply draft = .ok next) : next.Fits layout := by
  cases hname : operation.name? with
  | some name =>
    rw [apply_eq_writeEdit hwf hfits hname ((exists_apply_iff hwf hfits).mp ⟨next, h⟩)] at h
    exact hfits.writeEdit h
  | none =>
    cases operation with
    | eraseAll =>
      obtain rfl := Except.ok.inj h
      exact hfits.eraseAll_eq ▸ fits_blank layout
    | _ => cases hname

theorem fits_perform : (operation.perform draft).2.Fits layout := by
  cases h : operation.apply draft with
  | error error => rw [perform_eq_error h]; exact hfits
  | ok next => rw [perform_eq_ok h]; exact fits_apply hwf hfits h

/-- What a successful operation on a block is. -/
theorem exists_of_apply {name : String} (hname : operation.name? = some name)
    (h : operation.apply draft = .ok next) :
    ∃ block ∈ layout.blocks, block.name = name
      ∧ draft.writeEdit block.name operation.edit = .ok next := by
  have hadmitted := (exists_apply_iff hwf hfits).mp ⟨next, h⟩
  obtain ⟨block, hblock, rfl⟩ := exists_block_of_admitted hname hadmitted
  exact ⟨block, hblock, rfl, (apply_eq_writeEdit hwf hfits hname hadmitted).symm.trans h⟩

/-- **Whether it succeeds or fails, an operation leaves the blocks that it does not name**: their
arrays, and their parts of the flat row. -/
theorem others_of_perform {name : String} (hname : operation.name? = some name) {block : Placed}
    (hblock : block ∈ layout.blocks) (hne : block.name ≠ name) :
    Named.get? (operation.perform draft).2.arrays block.name = Named.get? draft.arrays block.name
      ∧ ∀ bigM, block.part ((operation.perform draft).2.flatten bigM)
        = block.part (draft.flatten bigM) := by
  have hsame : Named.get? (operation.perform draft).2.arrays block.name
      = Named.get? draft.arrays block.name := by
    cases h : operation.apply draft with
    | error error => rw [perform_eq_error h]
    | ok next =>
      obtain ⟨named, hnamed, rfl, hwrite⟩ := exists_of_apply hwf hfits hname h
      obtain ⟨-, -, -, -, hothers⟩ := hfits.part_of_writeEdit hwf hnamed hwrite
      rw [perform_eq_ok h]
      exact hothers block.name hne
  exact ⟨hsame, hfits.part_flatten_congr hwf (fits_perform hwf hfits) hblock hsame⟩

end

/-- What a successful operation does to the flat row: a coefficient is put into one place, the
elements of a block are replaced or edited, or coefficients become zero. -/
def Effect (layout : Layout) (before after : Draft) : Operation → Prop
  | write (.item item) => ∃ block ∈ layout.blocks, block.name = item.name
    ∧ item.cell.Within block.shape
    ∧ after.contents
      = before.contents.set (block.offset + item.cell.number block.shape) item.value
  | write (.array name values) => ∃ block ∈ layout.blocks, block.name = name
    ∧ block.part after.contents = values.elements block.shape
  | write (.edit name change) => ∃ block ∈ layout.blocks, block.name = name
    ∧ ∃ tensor, Named.get? before.arrays block.name = some tensor
      ∧ block.part after.contents = (change.apply tensor).entries
  | erase name => ∃ block ∈ layout.blocks, block.name = name
    ∧ block.part after.contents = List.replicate block.length .zero
  | eraseAll => after.contents = List.replicate layout.dimension .zero

/-- **A successful operation does what it is for.** -/
theorem effect_of_apply (hwf : layout.WellFormed) (hfits : draft.Fits layout)
    (h : operation.apply draft = .ok next) : operation.Effect layout draft next := by
  have hnext : next.Fits layout := fits_apply hwf hfits h
  cases operation with
  | write entry =>
    have hadmitted := (exists_apply_iff hwf hfits).mp ⟨next, h⟩
    rw [apply_eq_writeEdit hwf hfits rfl hadmitted] at h
    obtain ⟨block, hblock, hname, hsuits⟩ := hadmitted
    rw [← hname] at h
    obtain ⟨tensor, hget, hshape, hpart, hothers⟩ := hfits.part_of_writeEdit hwf hblock h
    cases entry with
    | item written =>
      have hcell : written.cell.Within tensor.shape := hshape ▸ hsuits
      have hentries := Edit.entries_put (hshape ▸ hwf.size_lt hblock) hcell written.value
      refine ⟨block, hblock, hname, hsuits, ?_⟩
      refine hfits.contents_eq_set hwf hnext hblock (Cell.number_lt hsuits) ?_ hothers
      rw [hpart, hfits.part_contents hwf hblock hget, ← hshape]
      exact hentries
    | array name values =>
      have hmatches : values.Matches tensor.shape := hshape ▸ hsuits
      exact ⟨block, hblock, hname, by rw [hpart, ← hshape]; exact hmatches.entries_replace⟩
    | edit name change => exact ⟨block, hblock, hname, tensor, hget, hpart⟩
  | erase name =>
    obtain ⟨block, hblock, hname, hwrite⟩ := exists_of_apply hwf hfits rfl h
    obtain ⟨tensor, -, hshape, hpart, -⟩ := hfits.part_of_writeEdit hwf hblock hwrite
    refine ⟨block, hblock, hname, hpart.trans ?_⟩
    show List.replicate tensor.shape.size Binary64.zero = List.replicate block.shape.size .zero
    rw [hshape]
  | eraseAll =>
    obtain rfl := Except.ok.inj h
    show draft.eraseAll.contents = _
    rw [hfits.eraseAll_eq]
    exact flatten_blank hwf _

/-! ## Runs of operations -/

/-- **Every run of operations keeps names, order and shapes.** -/
theorem fits_work (hwf : layout.WellFormed) (operations : List Operation)
    (hfits : draft.Fits layout) : (draft.work operations).Fits layout := by
  induction operations generalizing draft with
  | nil => exact hfits
  | cons operation rest ih => exact ih (fits_perform hwf hfits)

/-- **Refused operations leave no trace**: the run without them ends with the same draft. -/
theorem work_filter_admitted (hwf : layout.WellFormed) (operations : List Operation)
    (hfits : draft.Fits layout) :
    draft.work (operations.filter fun operation => operation.Admitted layout)
      = draft.work operations := by
  induction operations generalizing draft with
  | nil => rfl
  | cons operation rest ih =>
    have hperform : (operation.perform draft).2.Fits layout := fits_perform hwf hfits
    have hrest := ih hperform
    by_cases hadmitted : operation.Admitted layout
    · rw [List.filter_cons, if_pos (decide_eq_true hadmitted)]
      exact hrest
    · rw [List.filter_cons, if_neg (by simpa using hadmitted)]
      -- the operation fails, and the rest finds the draft as it was
      cases h : operation.apply draft with
      | ok next => exact absurd ((exists_apply_iff hwf hfits).mp ⟨next, h⟩) hadmitted
      | error error =>
        rw [perform_eq_error h] at hrest
        rw [hrest]
        show _ = (operation.perform draft).2.work rest
        rw [perform_eq_error h]

/-- **Operations have exact effects and keep the layout.** After any operations on a blank draft of
a reached layout, names, order and shapes are those of the blocks, and the flat row has one
coefficient for each variable, where each block has the elements of its array for its part. The
draft is blank exactly if all coefficients are zeros, and it is the one that is left without the
refused operations. One more operation fails exactly if the layout refuses it, and then nothing has
changed. If it succeeds it does what it is for, which for a single coefficient is that one element
of the flat row is replaced. In either case the blocks that it does not name are left as they are.
-/
theorem work_laid_out (attempts : List (String × Block)) (operations : List Operation) :
    let layout := Layout.ofAttempts attempts
    let draft := (blank layout).work operations
    Named.shapes draft.arrays = layout.shapes
      ∧ (∀ bigM, (draft.flatten bigM).length = layout.dimension)
      ∧ (∀ block ∈ layout.blocks, ∃ tensor, Named.get? draft.arrays block.name = some tensor
        ∧ tensor.shape = block.shape
        ∧ ∀ bigM, block.part (draft.flatten bigM) = tensor.entries.map (·.capInfinity bigM))
      ∧ (draft.isBlank = true ↔ ∀ x ∈ draft.contents, x = .zero ∨ x = .negZero)
      ∧ (blank layout).work (operations.filter fun operation => operation.Admitted layout) = draft
      ∧ ∀ operation : Operation,
        let answer := (operation.perform draft).1
        let after := (operation.perform draft).2
        (∀ error, answer = .error error ↔ operation.Refused layout error)
          ∧ (∀ error, answer = .error error → after = draft)
          ∧ (answer = .ok () → operation.Effect layout draft after)
          ∧ ∀ name, operation.name? = some name → ∀ block ∈ layout.blocks, block.name ≠ name →
            Named.get? after.arrays block.name = Named.get? draft.arrays block.name
              ∧ ∀ bigM, block.part (after.flatten bigM) = block.part (draft.flatten bigM) := by
  intro layout draft
  have hwf : layout.WellFormed := Layout.wellFormed_ofAttempts attempts
  have hfits : draft.Fits layout := fits_work hwf operations (fits_blank layout)
  refine ⟨hfits, hfits.length_flatten hwf, fun block hblock => ?_, isBlank_iff,
    work_filter_admitted hwf operations (fits_blank layout), fun operation => ?_⟩
  · obtain ⟨tensor, hget, hshape⟩ := hfits.exists_get? hwf.names_nodup hblock
    exact ⟨tensor, hget, hshape, hfits.part_flatten hwf hblock hget⟩
  · intro answer after
    refine ⟨fun error => answer_eq_error_iff.trans (apply_eq_error_iff hwf hfits),
      fun error herror => ?_, fun hok => ?_, fun name hname block hblock => ?_⟩
    · exact congrArg Prod.snd (perform_eq_error (answer_eq_error_iff.mp herror))
    · obtain ⟨next, hnext⟩ := answer_eq_ok_iff.mp hok
      have hafter : after = next := congrArg Prod.snd (perform_eq_ok hnext)
      exact hafter ▸ effect_of_apply hwf hfits hnext
    · exact others_of_perform hwf hfits hname hblock

/-- Two operations out of six are refused, and one more coefficient is put into the row. -/
theorem work_laid_out_two_refused :
    let layout := Layout.ofAttempts [("x", .ofShape {} [2, 2]), ("y", .ofShape {} [3])]
    let item (name : String) (cell : Cell) (value : Binary64) : Operation :=
      .write (.item ⟨name, cell, value⟩)
    let operations := [item "y" (.flat 1) .negZero, item "x" (.multi [1, 0]) (.ofInt 3),
      item "x" (.flat 4) (.ofInt 1), .write (.array "x" (.explicit (Tensor.ofList [.zero]))),
      .write (.edit "y" (.map fun x => -x)), item "y" (.flat 2) (.infinity true)]
    let draft := (blank layout).work operations
    let after := ((item "x" (.flat 1) (.ofInt 2)).perform draft).2
    draft.contents
        = [.zero, .zero, .ofInt 3, .zero, .negZero, .zero, .infinity true]
      ∧ (draft.isBlank = true ↔ ∀ x ∈ draft.contents, x = .zero ∨ x = .negZero)
      ∧ after.contents = draft.contents.set 1 (.ofInt 2)
      ∧ Named.get? after.arrays "y" = Named.get? draft.arrays "y" := by
  intro layout item operations draft after
  obtain ⟨-, -, -, hblank, -, hnext⟩ :=
    work_laid_out [("x", .ofShape {} [2, 2]), ("y", .ofShape {} [3])] operations
  obtain ⟨-, -, heffect, hothers⟩ := hnext (item "x" (.flat 1) (.ofInt 2))
  obtain ⟨x, hx, hname, -, hcontents⟩ := heffect (by decide +kernel)
  have hoffset : ∀ block ∈ layout.blocks, block.name = "x" → block.offset = 0 := by decide +kernel
  rw [hoffset x hx hname] at hcontents
  obtain ⟨y, hy, hyname⟩ : ∃ y ∈ layout.blocks, y.name = "y" := by decide +kernel
  have hsame := (hothers "x" rfl y hy (by rw [hyname]; decide)).1
  exact ⟨by decide +kernel, hblank, hcontents, hyname ▸ hsame⟩

end Operation

end LinearModel.Draft
