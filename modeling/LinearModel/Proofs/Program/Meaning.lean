import LinearModel.Proofs.Binary64.Order
import LinearModel.Proofs.Program.Assembly
import LinearModel.Proofs.Program.Drafted
import LinearModel.Proofs.WeightedSum

/-!
# What the flat problem means

The calls of a run write arrays of coefficients for named blocks; a solver is handed numbered
variables, and what it stages are lists of terms. `flat_problem_agrees` states that for any values
of the variables all of them speak of the same sums, exactly, and of the same bounds.

The sum of a drafted row goes over blocks and index vectors (`Draft.pairing`). On the way to the
solver the arrays are put behind one another (`dot_flatten`), gathered as the rows of a matrix
(`Sound.exists_flatProblem`) and stripped of zeros (`sparseDot_terms`).
-/

namespace LinearModel

/-! ## Drafts as sums -/

namespace Draft

/-- All coefficients denote a rational. -/
def IsFinite (draft : Draft) : Prop :=
  ∀ entry ∈ draft.arrays, ∀ coefficient ∈ entry.2.entries, coefficient.isFinite = true

instance (draft : Draft) : Decidable draft.IsFinite :=
  inferInstanceAs (Decidable (∀ entry ∈ draft.arrays, ∀ x ∈ entry.2.entries, x.isFinite = true))

/-- The sum of coefficient times value over all blocks and all their index vectors. -/
def pairing (layout : Layout) (draft : Draft) (values : Named (Grid Rat)) : Rat :=
  (layout.blocks.map fun block =>
    (block.shape.indices.map fun index =>
      ((Named.at? draft.arrays block.name index).getD .zero).exact
        * (Named.at? values block.name index).getD 0).sum).sum

theorem flatten_of_isFinite {draft : Draft} (h : draft.IsFinite) (bigM : Binary64) :
    draft.flatten bigM = draft.arrays.flatMap fun entry => entry.2.entries := by
  rw [flatten, List.flatMap_def, List.flatMap_def]
  refine congrArg List.flatten (List.map_congr_left fun entry hentry => ?_)
  refine (List.map_congr_left fun coefficient hcoefficient => ?_).trans (List.map_id _)
  have hfinite := h entry hentry coefficient hcoefficient
  -- only an infinity is replaced, and there is none
  cases coefficient with
  | infinity negative => cases hfinite
  | _ => rfl

/-- **A flat row weighs the flat values as the draft weighs the values.** -/
theorem dot_flatten {draft : Draft} {layout : Layout} (hwf : layout.WellFormed)
    (hfits : draft.Fits layout) (hfinite : draft.IsFinite) {values : Named (Grid Rat)}
    (hvalues : ∀ block ∈ layout.blocks, Layout.Supplies values block) (bigM : Binary64) :
    dot (draft.flatten bigM) (layout.blocks.flatMap (Layout.piece values))
      = draft.pairing layout values := by
  rw [flatten_of_isFinite hfinite, hfits.flatMap_entries hwf.names_nodup, dot_flatMap]
  · refine congrArg List.sum (List.map_congr_left fun block hblock => ?_)
    obtain ⟨weights, hweights, hshape⟩ := hfits.supplies hwf.names_nodup hblock
    obtain ⟨grid, hgrid, hgridshape⟩ := hvalues block hblock
    rw [Layout.piece_eq hweights, Layout.piece_eq hgrid, Named.at?_eq hweights,
      Named.at?_eq hgrid, dot_entries (hgridshape.trans hshape.symm), hshape]
  · intro block hblock
    rw [Layout.length_piece (hfits.supplies hwf.names_nodup hblock),
      Layout.length_piece (hvalues block hblock)]

end Draft

/-! ## Places in the flat problem -/

namespace Layout.WellFormed

variable {layout : Layout}

theorem getElem?_bounds (hwf : layout.WellFormed) {bound : Placed → Tensor}
    (hbound : ∀ block ∈ layout.blocks, (bound block).shape = block.shape) (bigM : Binary64)
    {block : Placed} (hblock : block ∈ layout.blocks) {index : List Nat}
    (hindex : block.shape.inRange index = true) :
    (layout.blocks.flatMap fun block => (bound block).entries.map (·.capInfinity bigM))[
        block.offset + block.shape.position index]?
      = ((bound block).get? index).map (·.capInfinity bigM) := by
  rw [hwf.getElem?_flatMap (length_capped hbound bigM) hblock
    ((bound block).map (·.capInfinity bigM)) rfl (hbound block hblock) hindex,
    Grid.get?_map]

end Layout.WellFormed

/-- The row of a program in the flat problem and in what is staged of it. -/
theorem FlatProblem.Carries.row {problem : FlatProblem} {program : Program} {objective : Objective}
    {bigM : Binary64} (h : problem.Carries program objective bigM) {i : Nat} {row : Row}
    (hrow : program.rows[i]? = some row) :
    problem.row? i = some row.coefficients ∧ problem.relations[i]? = some row.relation
      ∧ problem.rhs[i]? = some row.rhs
      ∧ (StagedProblem.ofFlat problem).rows[i]? = some (.ofRow row) := by
  refine ⟨?_, ?_, ?_, ?_⟩
  · rw [h.row?_eq, hrow]
    rfl
  · rw [h.relations_eq, List.getElem?_map, hrow]
    rfl
  · rw [h.rhs_eq, List.getElem?_map, hrow]
    rfl
  · rw [StagedProblem.ofFlat, List.getElem?_map, h.rows_eq, hrow]
    rfl

/-! ## Agreement -/

/-- A flat problem, and what is staged of it, say of a flat vector what the drafted rows, the
drafted objective and the bounds of the blocks say of a family of arrays. -/
structure Agrees (layout : Layout) (bigM : Binary64) (rows : List DraftedRow)
    (objective : DraftedObjective) (values : Named (Grid Rat)) (problem : FlatProblem)
    (staged : StagedProblem) (flat : List Rat) : Prop where
  rowCount : problem.rowCount = rows.length ∧ staged.rows.length = rows.length
  row : ∀ (i : Nat) (row : DraftedRow), rows[i]? = some row → ∃ coefficients terms,
    problem.row? i = some coefficients
      ∧ problem.relations[i]? = some row.relation ∧ problem.rhs[i]? = some row.rhs
      ∧ staged.rows[i]? = some ⟨terms, row.relation, row.rhs⟩
      ∧ dot coefficients flat = row.draft.pairing layout values
      ∧ sparseDot terms flat = row.draft.pairing layout values
  objective : problem.objective.length = layout.dimension ∧ staged.objective = problem.objective
    ∧ problem.sense = objective.sense ∧ staged.sense = objective.sense
    ∧ dot staged.objective flat = objective.draft.pairing layout values
  bounds : ∀ block ∈ layout.blocks, ∀ index, block.shape.inRange index = true →
    ∃ lower upper value lowest highest,
      block.lower.get? index = some lower ∧ block.upper.get? index = some upper
        ∧ Named.at? values block.name index = some value
        ∧ flat[block.offset + block.shape.position index]? = some value
        ∧ staged.lower[block.offset + block.shape.position index]? = some lowest
        ∧ staged.upper[block.offset + block.shape.position index]? = some highest
        ∧ (((lower.capInfinity bigM).Below value ∧ (upper.capInfinity bigM).Above value)
          ↔ lowest.Below value ∧ highest.Above value)

/-- The bounds of a block at an index vector are staged at its flat place, infinities replaced. -/
theorem exists_bounds {layout : Layout} (hwf : layout.WellFormed) {values : Named (Grid Rat)}
    (hvalues : ∀ block ∈ layout.blocks, Layout.Supplies values block) (bigM : Binary64)
    {block : Placed} (hblock : block ∈ layout.blocks) {index : List Nat}
    (hindex : block.shape.inRange index = true) :
    ∃ lower upper value, block.lower.get? index = some lower
      ∧ block.upper.get? index = some upper ∧ Named.at? values block.name index = some value
      ∧ (layout.blocks.flatMap (Layout.piece values))[
          block.offset + block.shape.position index]? = some value
      ∧ (layout.lowerBounds bigM)[block.offset + block.shape.position index]?
        = some (lower.capInfinity bigM)
      ∧ (layout.upperBounds bigM)[block.offset + block.shape.position index]?
        = some (upper.capInfinity bigM) := by
  have hblocks := hwf.blocks
  obtain ⟨grid, hgrid, hshape⟩ := hvalues block hblock
  obtain ⟨lower, hlower⟩ := Grid.exists_get? (t := block.lower)
    ((hblocks block hblock).lower_shape ▸ hindex)
  obtain ⟨upper, hupper⟩ := Grid.exists_get? (t := block.upper)
    ((hblocks block hblock).upper_shape ▸ hindex)
  obtain ⟨value, hvalue⟩ := Grid.exists_get? (t := grid) (hshape ▸ hindex)
  refine ⟨lower, upper, value, hlower, hupper, ?_, ?_, ?_, ?_⟩
  · rw [Named.at?_eq hgrid, hvalue]
  · rw [hwf.getElem?_flatMap (fun other hother => Layout.length_piece (hvalues other hother))
      hblock grid (Layout.piece_eq hgrid) hshape hindex, hvalue]
  · rw [Layout.lowerBounds, hwf.getElem?_bounds (fun other hother =>
      (hblocks other hother).lower_shape) bigM hblock hindex, hlower]
    rfl
  · rw [Layout.upperBounds, hwf.getElem?_bounds (fun other hother =>
      (hblocks other hother).upper_shape) bigM hblock hindex, hupper]
    rfl

/-- **The flat problem and what a solver stages of it mean what has been written.** After any run
whose rows and objective have finite coefficients, the flat problem exists and is loaded without an
error, and for any values of the variables its rows, the staged rows and both objectives give the
sums that the drafts give, while the staged bounds admit the same values as those of the blocks. -/
theorem flat_problem_agrees (attempts : List (String × Block)) (start : Configuration)
    (calls : List Call)
    (hrows : ∀ row ∈ draftedRows (.ofAttempts attempts) calls, row.draft.IsFinite)
    {objective : DraftedObjective}
    (hobjective : draftedObjective? (.ofAttempts attempts) calls = some objective)
    (hfinite : objective.draft.IsFinite) (config : Configuration) (scale : Bool)
    {values : Named (Grid Rat)}
    (hvalues : ∀ block ∈ (Layout.ofAttempts attempts).blocks, Layout.Supplies values block) :
    let layout := Layout.ofAttempts attempts
    let program := (run calls ⟨.ofLayout layout, start⟩).program
    ∃ problem flat staged, program.flatProblem config scale = .ok problem
      ∧ layout.join values = .ok flat
      ∧ (∀ name backend state, (Staging.solver name backend config).load problem state
        = (.ok (), ⟨some staged, none⟩))
      ∧ Agrees layout config.bigM (draftedRows layout calls) objective values problem staged
        flat := by
  intro layout program
  have hwf : layout.WellFormed := Layout.wellFormed_ofAttempts attempts
  have hsound : program.Sound := Program.Reachable.sound ⟨attempts, start, calls, rfl⟩
  have hlayout : program.layout = layout := (run_ofLayout_idle layout start calls).1
  have hdrafted : Drafted (draftedRows layout calls) (some objective) program :=
    hobjective ▸ run_drafted layout start calls
  obtain ⟨objectiveM, hrecorded⟩ := hdrafted.exists_objective
  obtain ⟨problem, hproblem, hcarries⟩ := hsound.exists_flatProblem hrecorded config scale
  have hcount : program.rows.length = (draftedRows layout calls).length :=
    hdrafted.rows.length_eq.symm
  have hfits := fits_of_draftedObjective? hobjective
  refine ⟨problem, _, .ofFlat problem, hproblem, Layout.join_eq_ok hvalues,
    fun name backend state => Staging.load_eq_ok hcarries.coherent name backend config state, ?_⟩
  refine ⟨⟨?_, ?_⟩, fun i row hrow => ?_, ⟨?_, rfl, hcarries.sense_eq, hcarries.sense_eq, ?_⟩,
    fun block hblock index hindex => ?_⟩
  · rw [FlatProblem.rowCount, Matrix.height, hcarries.matrix_rows, List.length_map, hcount]
  · rw [StagedProblem.ofFlat, List.length_map, hcarries.rows_eq, hcount]
  · obtain ⟨bigM, hprogramrow⟩ := hdrafted.exists_row hrow
    obtain ⟨hcoefficients, hrelation, hrhs, hstaged⟩ := hcarries.row hprogramrow
    have hmem := List.mem_of_getElem? hrow
    -- the stand-in that was configured when the row was written does not matter
    have hdot := Draft.dot_flatten hwf (fits_of_mem_draftedRows hmem) (hrows row hmem) hvalues bigM
    exact ⟨_, _, hcoefficients, hrelation, hrhs, hstaged, hdot, (sparseDot_terms _ _).trans hdot⟩
  · rw [hcarries.objective_eq, hfits.length_flatten hwf]
  · rw [StagedProblem.ofFlat, hcarries.objective_eq]
    exact Draft.dot_flatten hwf hfits hfinite hvalues objectiveM
  · obtain ⟨lower, upper, value, hlower, hupper, hvalue, hplace, hlowest, hhighest⟩ :=
      exists_bounds hwf hvalues config.bigM hblock hindex
    rw [← hlayout, ← hcarries.lower_eq] at hlowest
    rw [← hlayout, ← hcarries.upper_eq] at hhighest
    exact ⟨lower, upper, value, _, _, hlower, hupper, hvalue, hplace, hlowest, hhighest, Iff.rfl⟩

/-- A row over the second of two blocks, and a call that fails in between. -/
theorem flat_problem_agrees_second_block :
    let attempts := [("x", Block.ofShape {} [2]), ("x", .scalar {}), ("y", .scalar {})]
    let calls : List Call :=
      [.write (.objective [("x", .uniform (.ofInt 3))] .maximize),
        .write (.arrays [("z", .uniform .zero)] .zero .eq),
        .write (.items [⟨"x", .flat 1, .ofInt (-2)⟩, ⟨"y", .first, .ofInt 1⟩] (.ofInt 5) .le)]
    let values : Named (Grid Rat) := [("y", ⟨[1], [7], rfl⟩), ("x", ⟨[2], [1 / 2, 4], rfl⟩)]
    let layout := Layout.ofAttempts attempts
    ∃ objective problem flat staged, draftedObjective? layout calls = some objective
      ∧ (draftedRows layout calls).length = 1
      ∧ (run calls ⟨.ofLayout layout, {}⟩).program.flatProblem {} false = .ok problem
      ∧ layout.join values = .ok flat
      ∧ Agrees layout (Configuration.bigM {}) (draftedRows layout calls) objective values problem
        staged flat := by
  intro attempts calls values layout
  have hvalues : ∀ block ∈ layout.blocks, Layout.Supplies values block := by
    decide
  have hrows : ∀ row ∈ draftedRows layout calls, row.draft.IsFinite := by
    decide +kernel
  obtain ⟨objective, hobjective, hfinite⟩ : ∃ objective,
      draftedObjective? layout calls = some objective ∧ objective.draft.IsFinite :=
    ⟨_, rfl, by decide +kernel⟩
  obtain ⟨problem, flat, staged, hproblem, hflat, -, hagrees⟩ :=
    flat_problem_agrees attempts {} calls hrows hobjective hfinite {} false hvalues
  exact ⟨objective, problem, flat, staged, hobjective, rfl, hproblem, hflat, hagrees⟩

end LinearModel
