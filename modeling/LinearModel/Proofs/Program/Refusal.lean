import LinearModel.Proofs.Draft.Edits
import LinearModel.Proofs.Program.Reachable

/-!
# Refused calls

A writing call goes through its entries one after the other, and an entry is refused for what the
layout says of it: its block is unknown, its index lies outside of the block, or its array has
another shape. What the entries before it have written has no part in that.

* `Entry.write_eq_error_iff` — writing one entry fails exactly where the entry is refused
* `drafted_eq_error_iff` — writing all entries fails with the error of the first that is refused
* `exists_drafted_iff` — writing succeeds exactly if there is a block for every entry
* `Program.write_atomic` — a call that fails changes nothing, and one that succeeds adds one row or
  replaces the objective
-/

namespace LinearModel

/-! ## Changes of one array -/

theorem Draft.Fits.get?_eq_none {draft : Draft} {layout : Layout} (hfits : draft.Fits layout)
    {name : String} (hname : name ∉ layout.names) : Named.get? draft.arrays name = none := by
  rw [← hfits.names_eq, ← Named.exists_get?_iff] at hname
  cases hget : Named.get? draft.arrays name with
  | none => rfl
  | some tensor => exact absurd ⟨tensor, hget⟩ hname

/-- Whether a change of one array is refused is seen from the layout, if it is seen from the shape
of the array. No array has more elements than a word can count. -/
theorem Draft.Fits.change_eq_error_iff {draft : Draft} {layout : Layout} (hfits : draft.Fits layout)
    (hwf : layout.WellFormed) {name : String} {write : Tensor → Except ModelError Tensor}
    {error : ModelError} {P : Shape → Prop}
    (hwrite : ∀ tensor : Tensor, tensor.shape.size < UInt64.size →
      (write tensor = .error error ↔ P tensor.shape)) :
    draft.change name write = .error error ↔ name ∉ layout.names ∧ error = .unknownBlock name
      ∨ ∃ block ∈ layout.blocks, block.name = name ∧ P block.shape := by
  by_cases hname : name ∈ layout.names
  · obtain ⟨block, hmem, hblock⟩ := List.mem_map.mp hname
    obtain ⟨tensor, hget, hshape⟩ := hfits.exists_get? hwf.names_nodup hmem
    have hlocal := hwrite tensor (hshape ▸ hwf.size_lt hmem)
    have hchange : draft.change name write = .error error ↔ write tensor = .error error := by
      rw [change_eq_map (hblock ▸ hget)]
      cases write tensor <;> simp [Except.map]
    rw [hchange, hlocal, hshape]
    constructor
    · intro h
      exact Or.inr ⟨block, hmem, hblock, h⟩
    · rintro (⟨habsent, -⟩ | ⟨other, hother, heq, h⟩)
      · exact absurd hname habsent
      · -- no other block has the name
        rwa [hwf.eq_of_name_eq hmem hother (hblock.trans heq.symm)]
  · rw [change_eq_error (hfits.get?_eq_none hname)]
    constructor
    · intro h
      exact Or.inl ⟨hname, (Except.error.inj h).symm⟩
    · rintro (⟨-, rfl⟩ | ⟨block, hmem, rfl, -⟩)
      · rfl
      · exact absurd (List.mem_map_of_mem hmem) hname

namespace Writing

/-! ## Entries -/

/-- One thing that a call writes: a coefficient, the array of a block, or an edit of it. -/
inductive Entry where
  | item (written : Item)
  | array (name : String) (values : Dense)
  | edit (name : String) (change : Edit)

/-- What a call writes, in order. -/
def entries : Writing → List Entry
  | items list _ _ => list.map .item
  | arrays list _ _ | objective list _ => list.map fun entry => .array entry.1 entry.2
  | edits list _ _ => list.map fun entry => .edit entry.1 entry.2

namespace Entry

/-- The block that is written to. -/
def name : Entry → String
  | item written => written.name
  | array name _ | edit name _ => name

def write (draft : Draft) : Entry → Except ModelError Draft
  | item written => draft.writeCell written.name written.cell written.value
  | array name values => draft.writeAll name values
  | edit name change => draft.writeEdit name change

/-- The entry is not for a block of this shape: its index lies outside, or its array has another
shape. -/
def Misfits (shape : Shape) : Entry → ModelError → Prop
  | item written, error => ¬ written.cell.Within shape
    ∧ error = .indexOutOfRange written.name written.cell.toList shape
  | array name (.explicit given), error => given.shape ≠ shape
    ∧ error = .shapeMismatch name shape given.shape
  | array _ (.uniform _), _ | edit _ _, _ => False

/-- The entry cannot be written, for the reason that the error gives: its block is unknown, or is
not as the entry takes it to be. -/
def Refused (layout : Layout) (entry : Entry) (error : ModelError) : Prop :=
  entry.name ∉ layout.names ∧ error = .unknownBlock entry.name
    ∨ ∃ block ∈ layout.blocks, block.name = entry.name ∧ entry.Misfits block.shape error

/-- The entry is for a block of this shape: its index lies inside, or its array has the shape. -/
def Suits (shape : Shape) : Entry → Prop
  | item written => written.cell.Within shape
  | array _ values => values.Matches shape
  | edit _ _ => True

/-- The layout has the block that the entry is for. -/
def Admitted (layout : Layout) (entry : Entry) : Prop :=
  ∃ block ∈ layout.blocks, block.name = entry.name ∧ entry.Suits block.shape

instance (shape : Shape) : DecidablePred (Suits shape)
  | item written => inferInstanceAs (Decidable (written.cell.Within shape))
  | array _ (.explicit given) => inferInstanceAs (Decidable (given.shape = shape))
  | array _ (.uniform _) | edit _ _ => .isTrue trivial

instance (layout : Layout) : DecidablePred (Admitted layout) :=
  fun entry => inferInstanceAs (Decidable (∃ block ∈ layout.blocks, block.name = entry.name ∧ _))

variable {layout : Layout} {draft : Draft} {error : ModelError}

theorem forall_not_misfits_iff {shape : Shape} {entry : Entry} :
    (∀ error, ¬ entry.Misfits shape error) ↔ entry.Suits shape := by
  cases entry with
  | item written => simp [Misfits, Suits]
  | array name values => cases values <;> simp [Misfits, Suits, Dense.Matches]
  | edit name change => simp [Misfits, Suits]

/-- An entry is admitted or else refused. -/
theorem forall_not_refused_iff (hwf : layout.WellFormed) {entry : Entry} :
    (∀ error, ¬ entry.Refused layout error) ↔ entry.Admitted layout := by
  constructor
  · intro h
    have hname : entry.name ∈ layout.names := by
      by_contra habsent
      exact h (.unknownBlock entry.name) (Or.inl ⟨habsent, rfl⟩)
    obtain ⟨block, hblock, hblockname⟩ := List.mem_map.mp hname
    refine ⟨block, hblock, hblockname, forall_not_misfits_iff.mp fun error hmisfits => ?_⟩
    exact h error (Or.inr ⟨block, hblock, hblockname, hmisfits⟩)
  · rintro ⟨block, hblock, hname, hsuits⟩ error (⟨habsent, -⟩ | ⟨other, hother, heq, hmisfits⟩)
    · exact habsent (hname ▸ List.mem_map_of_mem hblock)
    · have hsame : block = other := hwf.eq_of_name_eq hblock hother (hname.trans heq.symm)
      exact forall_not_misfits_iff.mpr hsuits error (hsame ▸ hmisfits)

theorem fits_write {entry : Entry} {next : Draft} (hfits : draft.Fits layout)
    (h : entry.write draft = .ok next) : next.Fits layout := by
  cases entry with
  | item written => exact hfits.writeCell h
  | array name values => exact hfits.writeAll h
  | edit name change => exact hfits.writeEdit h

/-- **An entry fails to be written exactly where it is refused**, whatever has been written. -/
theorem write_eq_error_iff (hwf : layout.WellFormed) (hfits : draft.Fits layout) {entry : Entry} :
    entry.write draft = .error error ↔ entry.Refused layout error := by
  unfold Refused
  cases entry with
  | item written =>
    rw [write, Draft.writeCell]
    refine hfits.change_eq_error_iff hwf (P := (Misfits · (.item written) error)) ?_
    intro tensor hsize
    by_cases hcell : written.cell.Within tensor.shape
    · obtain ⟨index, hindex, -, -⟩ := Cell.exists_locate? hsize hcell
      simp [hindex, hcell, Misfits]
    · simp [Cell.locate?_eq_none hsize hcell, hcell, Misfits, eq_comm]
  | array name values =>
    rw [write, Draft.writeAll]
    refine hfits.change_eq_error_iff hwf (P := (Misfits · (.array name values) error)) ?_
    intro tensor _
    unfold Dense.resolve
    cases values with
    | uniform value => simp [Dense.fit, Misfits]
    | explicit given =>
      by_cases hshape : given.shape = tensor.shape
      · simp [Dense.fit, hshape, Misfits]
      · simp [Dense.fit, hshape, Misfits, eq_comm]
  | edit name change =>
    rw [write, Draft.writeEdit]
    refine hfits.change_eq_error_iff hwf (P := (Misfits · (.edit name change) error)) ?_
    simp [Misfits]

end Entry

/-! ## Calls -/

theorem drafted_eq_foldlM (writing : Writing) (layout : Layout) :
    writing.drafted layout = writing.entries.foldlM Entry.write (.blank layout) := by
  cases writing <;> (rw [entries, List.foldlM_map]; exact (Program.foldlM_eq_writeEach _ _).symm)

/-- **Writing fails with the error of the first entry that is refused.** -/
theorem drafted_eq_error_iff {layout : Layout} (hwf : layout.WellFormed) {writing : Writing}
    {error : ModelError} :
    writing.drafted layout = .error error
      ↔ FirstRefused (Entry.Refused layout) writing.entries error := by
  rw [drafted_eq_foldlM]
  refine foldlM_eq_error_iff (P := fun draft => draft.Fits layout) ?_ ?_ (Draft.fits_blank layout)
  · intro draft entry next hfits h
    exact Entry.fits_write hfits h
  · intro draft entry error hfits
    exact Entry.write_eq_error_iff hwf hfits

/-- **Writing succeeds exactly if there is a block for every entry.** -/
theorem exists_drafted_iff {layout : Layout} (hwf : layout.WellFormed) {writing : Writing} :
    (∃ draft, writing.drafted layout = .ok draft)
      ↔ ∀ entry ∈ writing.entries, entry.Admitted layout := by
  have hrefused : (∃ error, writing.drafted layout = .error error)
      ↔ ∃ entry ∈ writing.entries, ∃ error, entry.Refused layout error := by
    simp only [drafted_eq_error_iff hwf, exists_firstRefused_iff]
  cases hdrafted : writing.drafted layout with
  | error error =>
    obtain ⟨entry, hentry, reason, hreason⟩ := hrefused.mp ⟨error, hdrafted⟩
    refine iff_of_false (by simp) fun h => ?_
    exact (Entry.forall_not_refused_iff hwf).mpr (h entry hentry) reason hreason
  | ok draft =>
    refine iff_of_true ⟨draft, rfl⟩ fun entry hentry => ?_
    refine (Entry.forall_not_refused_iff hwf).mp fun reason hreason => ?_
    obtain ⟨error, herror⟩ := hrefused.mpr ⟨entry, hentry, reason, hreason⟩
    rw [hdrafted] at herror
    cases herror

theorem answer_eq_ok_iff {program : Program} (hsound : program.Sound) (config : Configuration)
    (writing : Writing) :
    (writing.perform config program).1 = .ok ()
      ↔ ∀ entry ∈ writing.entries, entry.Admitted program.layout := by
  rw [writing.perform_of_idle hsound.idle, coefficients, ← exists_drafted_iff hsound.layout]
  cases writing.drafted program.layout <;> simp [Except.map, finish]

end Writing

/-- **Calls that write are atomic.** Such a call over a reachable program fails exactly if one of
its entries is refused, with the error of the first of them, and then nothing has changed. If it
succeeds there is one more row at the end, or another objective, and all the rest is the same. -/
theorem Program.write_atomic {program : Program} (h : program.Reachable) (config : Configuration)
    (writing : Writing) :
    let answer := (writing.perform config program).1
    let after := (writing.perform config program).2
    (∀ error, answer = .error error
        ↔ FirstRefused (Writing.Entry.Refused program.layout) writing.entries error)
      ∧ ((∃ error, answer = .error error)
        ↔ ∃ entry ∈ writing.entries, ∃ error, entry.Refused program.layout error)
      ∧ (∀ error, answer = .error error → after = program)
      ∧ (answer = .ok () → ∃ coefficients, coefficients.length = program.layout.dimension
        ∧ after = match writing with
          | .items _ rhs relation | .arrays _ rhs relation | .edits _ rhs relation =>
            { program with rows := program.rows ++ [⟨coefficients, relation, rhs⟩] }
          | .objective _ sense => { program with objective := some ⟨coefficients, sense⟩ }) := by
  intro answer after
  have hsound : program.Sound := h.sound
  have hperform := writing.perform_of_idle hsound.idle config
  have herror : ∀ error, answer = .error error
      ↔ FirstRefused (Writing.Entry.Refused program.layout) writing.entries error := by
    intro error
    rw [← Writing.drafted_eq_error_iff hsound.layout]
    show (writing.perform config program).1 = _ ↔ _
    rw [hperform, Writing.coefficients]
    cases writing.drafted program.layout <;> simp [Except.map, Writing.finish]
  refine ⟨herror, ?_, ?_, ?_⟩
  · simp only [herror, exists_firstRefused_iff]
  · intro error h
    have hdrafted : writing.drafted program.layout = .error error :=
      (Writing.drafted_eq_error_iff hsound.layout).mpr ((herror error).mp h)
    show (writing.perform config program).2 = program
    rw [hperform, Writing.coefficients, hdrafted]
    rfl
  · intro h
    cases hdrafted : writing.drafted program.layout with
    | error error =>
      have : answer = .error error :=
        (herror error).mpr ((Writing.drafted_eq_error_iff hsound.layout).mp hdrafted)
      rw [h] at this
      cases this
    | ok draft =>
      have hfits : draft.Fits program.layout := Writing.fits_drafted hdrafted
      refine ⟨draft.flatten config.bigM, hfits.length_flatten hsound.layout _, ?_⟩
      show (writing.perform config program).2 = _
      rw [hperform, Writing.coefficients, hdrafted]
      show writing.record (draft.flatten config.bigM) program = _
      cases writing <;>
        simp [Writing.record, Writing.row?, Writing.objective?, Writing.side?, Writing.sense?]

/-- The third of four coefficients has no cell; the block of the fourth is not asked for. -/
theorem Program.write_atomic_third_entry :
    let layout := Layout.ofAttempts [("x", .ofShape {} [2, 2]), ("y", .scalar {})]
    let program := (run [.write (.items [⟨"x", .flat 3, .infinity true⟩] .zero .ge)]
      ⟨.ofLayout layout, {}⟩).program
    let writing : Writing := .items [⟨"x", .multi [0, 1], .ofInt 5⟩, ⟨"y", .first, .negZero⟩,
      ⟨"x", .multi [0, 2], .ofInt 7⟩, ⟨"z", .first, .zero⟩] .zero .le
    let error := ModelError.indexOutOfRange "x" [0, 2] [2, 2]
    (writing.perform {} program).1 = .error error
      ∧ FirstRefused (Writing.Entry.Refused program.layout) writing.entries error
      ∧ (writing.perform {} program).2 = program := by
  intro layout program writing error
  have hreach : program.Reachable := ⟨_, _, _, rfl⟩
  obtain ⟨hfirst, -, hunchanged, -⟩ := write_atomic hreach {} writing
  have hanswer : (writing.perform {} program).1 = .error error := rfl
  exact ⟨hanswer, (hfirst error).mp hanswer, hunchanged error hanswer⟩

end LinearModel
