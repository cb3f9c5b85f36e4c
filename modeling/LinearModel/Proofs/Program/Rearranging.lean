import LinearModel.Proofs.Draft.FlatRow
import LinearModel.Proofs.Program.Assembly
import LinearModel.Proofs.Program.Refusal

/-!
# The order of declaration

The order in which blocks are declared decides where each of them lies in a flat vector, and nothing
else. Two programs over the same blocks in different orders go through the same calls side by side:
a call is refused by both with the same error, or by neither, and afterwards every row, the
objective and both bounds have for each block the same part.

* `Draft.Alongside`, `Entry.sameOutcome_write` — what one entry does to two drafts
* `Writing.sameOutcome_coefficients` — the flat coefficients that a call writes
* `Workspace.Alongside.perform`, `run_alongside` — one call, and all of a run
* `declaration_order_free` — what is the same for both programs after any run
-/

namespace LinearModel

variable {layout other : Layout}

/-! ## Drafts side by side -/

theorem Named.Same.insert {α : Type} {arrays arrays' : Named α} (h : Named.Same arrays arrays')
    (name : String) (value : α) :
    Named.Same (Named.insert arrays name value) (Named.insert arrays' name value) := by
  intro wanted
  by_cases hname : wanted = name
  · rw [hname, Named.get?_insert_self, Named.get?_insert_self]
  · rw [Named.get?_insert_of_ne _ _ hname, Named.get?_insert_of_ne _ _ hname, h wanted]

/-- Drafts over two layouts with the same array under every name. -/
structure Draft.Alongside (layout other : Layout) (draft draft' : Draft) : Prop where
  fits : draft.Fits layout
  fits' : draft'.Fits other
  same : Named.Same draft.arrays draft'.arrays

theorem Draft.get?_blank (hwf : layout.WellFormed) {block : Placed} (hmem : block ∈ layout.blocks) :
    Named.get? (blank layout).arrays block.name = some (.zeros block.shape) :=
  Named.get?_of_mem ((fits_blank layout).names_eq ▸ hwf.names_nodup)
    (List.mem_map_of_mem (f := fun block : Placed => (block.name, Tensor.zeros block.shape)) hmem)

theorem Draft.alongside_blank (h : layout.Rearranged other) (hwf : layout.WellFormed)
    (hother : other.WellFormed) : Alongside layout other (blank layout) (blank other) where
  fits := fits_blank layout
  fits' := fits_blank other
  same := by
    refine h.same (fits_blank layout) (fits_blank other) fun block hblock moved hmoved hsame => ?_
    rw [get?_blank hwf hblock, get?_blank hother hmoved, hsame.shape_eq]

/-- A change of one array sees nothing but this array. -/
theorem Draft.sameOutcome_change {draft draft' : Draft}
    (h : Named.Same draft.arrays draft'.arrays) (name : String)
    (write : Tensor → Except ModelError Tensor) :
    SameOutcome (fun next next' : Draft => Named.Same next.arrays next'.arrays)
      (draft.change name write) (draft'.change name write) := by
  cases hget : Named.get? draft.arrays name with
  | none =>
    rw [change_eq_error hget, change_eq_error ((h name).symm.trans hget)]
    exact .error _
  | some tensor =>
    rw [change_eq_map hget, change_eq_map ((h name).symm.trans hget)]
    cases write tensor with
    | error error => exact .error error
    | ok out => exact .ok (h.insert name out)

namespace Writing

/-- **An entry is written into both drafts or refused by both.** -/
theorem Entry.sameOutcome_write {draft draft' : Draft}
    (h : Draft.Alongside layout other draft draft') (entry : Entry) :
    SameOutcome (Draft.Alongside layout other) (entry.write draft) (entry.write draft') := by
  have hchange : SameOutcome (fun next next' : Draft => Named.Same next.arrays next'.arrays)
      (entry.write draft) (entry.write draft') := by
    cases entry <;> exact Draft.sameOutcome_change h.same _ _
  rcases hchange.exists_eq with ⟨error, hdraft, hdraft'⟩ | ⟨next, next', hdraft, hdraft', hsame⟩
  · rw [hdraft, hdraft']
    exact .error error
  · rw [hdraft, hdraft']
    exact .ok ⟨fits_write h.fits hdraft, fits_write h.fits' hdraft', hsame⟩

/-- **The flat coefficients have for each block the same part**, as the block has the same array in
both drafts. -/
theorem sameOutcome_coefficients (h : layout.Rearranged other) (hwf : layout.WellFormed)
    (hother : other.WellFormed) (writing : Writing) (bigM : Binary64) :
    SameOutcome (Layout.SameParts layout other) (writing.coefficients layout bigM)
      (writing.coefficients other bigM) := by
  have hdrafted : SameOutcome (Draft.Alongside layout other) (writing.drafted layout)
      (writing.drafted other) := by
    rw [drafted_eq_foldlM, drafted_eq_foldlM]
    exact SameOutcome.foldlM (fun _ _ entry h => entry.sameOutcome_write h)
      (Draft.alongside_blank h hwf hother) writing.entries
  unfold coefficients
  rcases hdrafted.exists_eq with ⟨error, hhere, hthere⟩ | ⟨draft, draft', hhere, hthere, hdrafts⟩
  · rw [hhere, hthere]
    exact .error error
  · rw [hhere, hthere]
    refine .ok ?_
    show Layout.SameParts layout other (draft.flatten bigM) (draft'.flatten bigM)
    intro block hblock moved hmoved hname
    obtain ⟨tensor, hget, -⟩ := hdrafts.fits.exists_get? hwf.names_nodup hblock
    have hget' : Named.get? draft'.arrays moved.name = some tensor := by
      rw [← hdrafts.same, ← hname, hget]
    rw [hdrafts.fits.part_flatten hwf hblock hget, hdrafts.fits'.part_flatten hother hmoved hget']

end Writing

/-! ## Programs side by side -/

/-- Rows with the same relation and right-hand side and for each block the same coefficients. -/
structure Row.Alongside (layout other : Layout) (row row' : Row) : Prop where
  relation_eq : row.relation = row'.relation
  rhs_eq : row.rhs = row'.rhs
  coefficients : Layout.SameParts layout other row.coefficients row'.coefficients

/-- Objectives with the same direction and for each block the same coefficients. -/
structure Objective.Alongside (layout other : Layout) (objective objective' : Objective) :
    Prop where
  sense_eq : objective.sense = objective'.sense
  coefficients : Layout.SameParts layout other objective.coefficients objective'.coefficients

/-- Programs over the same blocks, row by row and in their objectives the same for each block. -/
structure Program.Alongside (program program' : Program) : Prop where
  layout : program.layout.Rearranged program'.layout
  rows : List.Forall₂ (Row.Alongside program.layout program'.layout) program.rows program'.rows
  objective : Option.Rel (Objective.Alongside program.layout program'.layout) program.objective
    program'.objective

theorem Program.Alongside.record {program program' : Program} (h : program.Alongside program')
    (writing : Writing) {coefficients coefficients' : List Binary64}
    (hparts : Layout.SameParts program.layout program'.layout coefficients coefficients') :
    (writing.record coefficients program).Alongside (writing.record coefficients' program') where
  layout := h.layout
  rows := by
    refine List.rel_append h.rows ?_
    unfold Writing.row?
    cases writing.side? with
    | none => exact .nil
    | some side => exact .cons ⟨rfl, rfl, hparts⟩ .nil
  objective := by
    show Option.Rel _ ((writing.objective? coefficients).or program.objective)
      ((writing.objective? coefficients').or program'.objective)
    unfold Writing.objective?
    cases writing.sense? with
    | none => exact h.objective
    | some sense => exact .some ⟨rfl, hparts⟩

/-- Both programs record, or both give the same error and are as they were. -/
theorem Program.Alongside.finish {program program' : Program} (h : program.Alongside program')
    (writing : Writing) {answer answer' : Except ModelError (List Binary64)}
    (hanswer : SameOutcome (Layout.SameParts program.layout program'.layout) answer answer') :
    (writing.finish answer program).1 = (writing.finish answer' program').1
      ∧ (writing.finish answer program).2.Alongside (writing.finish answer' program').2 := by
  cases hanswer with
  | error error => exact ⟨rfl, h⟩
  | ok hparts => exact ⟨rfl, h.record writing hparts⟩

/-! ## Runs side by side -/

/-- Sound programs that go side by side, under one configuration. -/
structure Workspace.Alongside (space space' : Workspace) : Prop where
  sound : space.program.Sound
  sound' : space'.program.Sound
  program : space.program.Alongside space'.program
  config_eq : space.config = space'.config

theorem Call.config_perform (call : Call) {space space' : Workspace}
    (h : space.config = space'.config) :
    (call.perform space).config = (call.perform space').config := by
  cases call with
  | configure config => rfl
  | _ => exact h

namespace Workspace.Alongside

variable {space space' : Workspace}

theorem sameOutcome_coefficients (h : space.Alongside space') (writing : Writing) :
    SameOutcome (Layout.SameParts space.program.layout space'.program.layout)
      (writing.coefficients space.program.layout space.config.bigM)
      (writing.coefficients space'.program.layout space'.config.bigM) := by
  rw [h.config_eq]
  exact writing.sameOutcome_coefficients h.program.layout h.sound.layout h.sound'.layout _

/-- **A writing call is answered in the same way.** -/
theorem answer_eq (h : space.Alongside space') (writing : Writing) :
    (writing.perform space.config space.program).1
      = (writing.perform space'.config space'.program).1 := by
  rw [writing.perform_of_idle h.sound.idle, writing.perform_of_idle h.sound'.idle]
  exact (h.program.finish writing (h.sameOutcome_coefficients writing)).1

theorem written (h : space.Alongside space') (call : Call) :
    (call.written space).Alongside (call.written space') := by
  unfold Call.written
  cases call.writing? with
  | none => exact h.program
  | some writing => exact (h.program.finish writing (h.sameOutcome_coefficients writing)).2

/-- **One call keeps the programs side by side.** -/
theorem perform (h : space.Alongside space') (call : Call) :
    (call.perform space).Alongside (call.perform space') where
  sound := h.sound.perform call
  sound' := h.sound'.perform call
  program := by
    obtain ⟨status, hhere⟩ := perform_program h.sound.idle call
    obtain ⟨status', hthere⟩ := perform_program h.sound'.idle call
    have hwritten := h.written call
    rw [hhere, hthere]
    exact ⟨hwritten.layout, hwritten.rows, hwritten.objective⟩
  config_eq := call.config_perform h.config_eq

end Workspace.Alongside

theorem run_alongside {space space' : Workspace} (h : space.Alongside space') (calls : List Call) :
    (run calls space).Alongside (run calls space') := by
  induction calls generalizing space space' with
  | nil => exact h
  | cons call calls ih => exact ih (h.perform call)

/-! ## What a solver is given -/

namespace Layout.Rearranged

theorem sameParts_bounds (h : layout.Rearranged other) (hwf : layout.WellFormed)
    (hother : other.WellFormed) (bigM : Binary64) :
    SameParts layout other (layout.lowerBounds bigM) (other.lowerBounds bigM)
      ∧ SameParts layout other (layout.upperBounds bigM) (other.upperBounds bigM) := by
  have hblocks := hwf.blocks
  constructor
  · refine h.sameParts_flatMap hwf hother (WellFormed.length_capped (fun block hblock =>
      (hblocks block hblock).lower_shape) bigM) fun block moved hsame => ?_
    rw [hsame.lower_eq]
  · refine h.sameParts_flatMap hwf hother (WellFormed.length_capped (fun block hblock =>
      (hblocks block hblock).upper_shape) bigM) fun block moved hsame => ?_
    rw [hsame.upper_eq]

theorem sameParts_integerFlags (h : layout.Rearranged other) (hwf : layout.WellFormed)
    (hother : other.WellFormed) :
    SameParts layout other layout.integerFlags other.integerFlags := by
  refine h.sameParts_flatMap hwf hother (fun block _ => List.length_replicate) ?_
  intro block moved hsame
  rw [hsame.length_eq, hsame.kind_eq]

end Layout.Rearranged

/-- **The order of declaration does not change what a program means.** Blocks that can be placed can
be placed in any other order. After any run of calls on both programs a writing call is answered in
the same way by both, with the same error if it is refused. Both have the same number of rows, and
for each block the same coefficients in every row and in the objective, the same bounds and the same
integer flags; and flat vectors in which each block has the same part are split into the same array
for every name. -/
theorem declaration_order_free {blocks reordered : List (String × Block)}
    (hperm : blocks.Perm reordered) {fresh : Program} (h : Program.ofBlocks blocks = .ok fresh)
    (config : Configuration) :
    ∃ fresh', Program.ofBlocks reordered = .ok fresh'
      ∧ fresh.layout.Rearranged fresh'.layout
      ∧ (∀ calls : List Call,
        let reached := run calls ⟨fresh, config⟩
        let reached' := run calls ⟨fresh', config⟩
        reached.program.layout = fresh.layout ∧ reached'.program.layout = fresh'.layout
          ∧ (∀ writing : Writing, (writing.perform reached.config reached.program).1
            = (writing.perform reached'.config reached'.program).1)
          ∧ reached.program.rows.length = reached'.program.rows.length
          ∧ reached.program.Alongside reached'.program)
      ∧ (∀ bigM, Layout.SameParts fresh.layout fresh'.layout (fresh.layout.lowerBounds bigM)
          (fresh'.layout.lowerBounds bigM)
        ∧ Layout.SameParts fresh.layout fresh'.layout (fresh.layout.upperBounds bigM)
          (fresh'.layout.upperBounds bigM))
      ∧ Layout.SameParts fresh.layout fresh'.layout fresh.layout.integerFlags
        fresh'.layout.integerFlags
      ∧ ∀ (α : Type) (flat flat' : List α), flat.length = flat'.length →
        Layout.SameParts fresh.layout fresh'.layout flat flat' →
        SameOutcome Named.Same (fresh.layout.split flat) (fresh'.layout.split flat') := by
  obtain ⟨layout, hlayout, rfl⟩ := Program.exists_layout_of_ofBlocks h
  obtain ⟨other, hother, hrearranged⟩ := Layout.exists_ofBlocks_of_perm hperm hlayout
  have hwf := Layout.wellFormed_of_ofBlocks hlayout
  have hwf' := Layout.wellFormed_of_ofBlocks hother
  have hstart : Workspace.Alongside ⟨.ofLayout layout, config⟩ ⟨.ofLayout other, config⟩ :=
    ⟨Program.sound_ofLayout hwf, Program.sound_ofLayout hwf', ⟨hrearranged, .nil, .none⟩, rfl⟩
  refine ⟨.ofLayout other, by rw [Program.ofBlocks, hother]; rfl, hrearranged, fun calls => ?_,
    hrearranged.sameParts_bounds hwf hwf', hrearranged.sameParts_integerFlags hwf hwf',
    fun α flat flat' => hrearranged.sameOutcome_split hwf hwf'⟩
  have hreached := run_alongside hstart calls
  exact ⟨(run_ofLayout_idle layout config calls).1, (run_ofLayout_idle other config calls).1,
    hreached.answer_eq, hreached.program.rows.length_eq, hreached.program⟩

/-- Two blocks in both orders, with a call that is refused before a row is written. -/
theorem declaration_order_free_swapped :
    let first := ("x", Block.ofShape {} [2])
    let second := ("z", Block.declare {} (some [2, 1]) none (some (.uniform (.ofInt 1))) .integer)
    let calls : List Call :=
      [.write (.items [⟨"z", .flat 1, .ofInt 7⟩, ⟨"x", .flat 2, .ofInt 7⟩] .zero .eq),
        .write (.items [⟨"z", .multi [1, 0], .ofInt 3⟩, ⟨"x", .first, .infinity false⟩] .zero .le)]
    ∃ fresh fresh', Program.ofBlocks [first, second] = .ok fresh
      ∧ Program.ofBlocks [second, first] = .ok fresh'
      ∧ (let reached := run calls ⟨fresh, {}⟩
        let reached' := run calls ⟨fresh', {}⟩
        reached.program.rows.map Row.coefficients
            = [[.ofInt 100000, .zero, .zero, .ofInt 3]]
          ∧ reached'.program.rows.map Row.coefficients
            = [[.zero, .ofInt 3, .ofInt 100000, .zero]]
          ∧ reached.program.Alongside reached'.program) := by
  intro first second calls
  obtain ⟨fresh, hfresh⟩ : ∃ fresh, Program.ofBlocks [first, second] = .ok fresh := ⟨_, rfl⟩
  obtain ⟨fresh', hfresh', -, hruns, -⟩ :=
    declaration_order_free (.swap second first []) hfresh {}
  obtain ⟨-, -, -, -, halongside⟩ := hruns calls
  refine ⟨fresh, fresh', hfresh, hfresh', ?_, ?_, halongside⟩
  · cases hfresh
    decide +kernel
  · cases hfresh'
    decide +kernel

end LinearModel
