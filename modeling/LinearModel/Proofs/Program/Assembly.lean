import LinearModel.Program.Assembly
import LinearModel.Proofs.Layout.Parts
import LinearModel.Proofs.Program.Reachable
import LinearModel.Proofs.Solver.Loading

/-!
# The flat problem of a program

A reachable program with an objective has a flat problem, and all of the program is in it: its parts
have one number for each variable and one entry for each row, and none of them is cut short where
they are taken together.

* `Sound.exists_flatProblem` — the flat problem exists and carries the program
* `flatProblem_loads` — its lengths, its rows one by one, and that the staging solver takes it in
  whatever state it is
-/

namespace LinearModel

/-! ## Lengths -/

theorem Matrix.rows_ofRows {width : Nat} {rows : List (List Binary64)}
    (h : ∀ row ∈ rows, row.length = width) : (ofRows width rows).rows = rows := by
  refine (List.map_congr_left fun row hrow => ?_).trans (List.map_id rows)
  rw [← h row hrow, map_range_getD]
  rfl

namespace Layout.WellFormed

variable {layout : Layout}

theorem integerIndices_lt (hwf : layout.WellFormed) {i : Nat} (h : i ∈ layout.integerIndices) :
    i < layout.dimension := by
  obtain ⟨block, hblock, hi⟩ := List.mem_flatMap.mp h
  exact hwf.lt_of_mem_range (List.mem_filter.mp hblock).1 hi

theorem length_capped {bound : Placed → Tensor}
    (hbound : ∀ block ∈ layout.blocks, (bound block).shape = block.shape) (bigM : Binary64) :
    ∀ block ∈ layout.blocks,
      ((bound block).entries.map (·.capInfinity bigM)).length = block.length := by
  intro block hblock
  rw [List.length_map, (bound block).length_entries, hbound block hblock]
  rfl

theorem length_bounds (hwf : layout.WellFormed) {bound : Placed → Tensor}
    (hbound : ∀ block ∈ layout.blocks, (bound block).shape = block.shape) (bigM : Binary64) :
    (layout.blocks.flatMap fun block => (bound block).entries.map (·.capInfinity bigM)).length
      = layout.dimension := by
  rw [hwf.dimension_eq]
  exact length_flatMap_blocks (length_capped hbound bigM)

end Layout.WellFormed

/-! ## All of the program -/

/-- The parts of the flat problem are those of the program with the objective. -/
structure FlatProblem.Carries (problem : FlatProblem) (program : Program) (objective : Objective)
    (bigM : Binary64) : Prop where
  coherent : problem.Coherent
  objective_eq : problem.objective = objective.coefficients
  sense_eq : problem.sense = objective.sense
  matrix_rows : problem.matrix.rows = program.rows.map Row.coefficients
  relations_eq : problem.relations = program.rows.map Row.relation
  rhs_eq : problem.rhs = program.rows.map Row.rhs
  rows_eq : problem.rows = program.rows
  lower_eq : problem.lower = program.layout.lowerBounds bigM
  upper_eq : problem.upper = program.layout.upperBounds bigM

/-- **A sound program with an objective has a flat problem that carries all of it.** -/
theorem Program.Sound.exists_flatProblem {program : Program} (h : program.Sound)
    {objective : Objective} (hobjective : program.objective = some objective)
    (config : Configuration) (scale : Bool) :
    ∃ problem, program.flatProblem config scale = .ok problem
      ∧ problem.Carries program objective config.bigM := by
  have hlen := h.length_objective objective hobjective
  have hblocks := h.layout.blocks
  have hmatrix : (Matrix.ofRows program.layout.dimension (program.rows.map Row.coefficients)).rows
      = program.rows.map Row.coefficients := by
    refine Matrix.rows_ofRows fun coefficients hmem => ?_
    obtain ⟨row, hrow, rfl⟩ := List.mem_map.mp hmem
    exact h.length_row row hrow
  rw [flatProblem, hobjective]
  refine ⟨_, rfl, ⟨hlen.symm, ?_, ?_, fun i hi => ?_⟩, rfl, rfl, hmatrix, rfl, rfl, ?_, rfl, rfl⟩
  · rw [FlatProblem.variableCount, hlen]
    exact h.layout.length_bounds (fun block hblock => (hblocks block hblock).lower_shape) _
  · rw [FlatProblem.variableCount, hlen]
    exact h.layout.length_bounds (fun block hblock => (hblocks block hblock).upper_shape) _
  · rw [FlatProblem.variableCount, hlen]
    exact h.layout.integerIndices_lt hi
  · show List.zipWith _ (Matrix.ofRows _ _).rows _ = _
    rw [hmatrix]
    simp [constraintSystem, List.zip_map', List.zipWith_map]

/-! ## Rows and loading -/

/-- One number for each variable in both bounds, in the objective and in each row, and as many
relations and right-hand sides as there are rows. -/
structure FlatProblem.Sized (problem : FlatProblem) (variableCount rowCount : Nat) : Prop where
  length_objective : problem.objective.length = variableCount
  length_lower : problem.lower.length = variableCount
  length_upper : problem.upper.length = variableCount
  width_eq : problem.matrix.width = variableCount
  height_eq : problem.matrix.height = rowCount
  length_relations : problem.relations.length = rowCount
  length_rhs : problem.rhs.length = rowCount
  integer_lt : ∀ i ∈ problem.integers, i < variableCount

namespace FlatProblem.Carries

variable {problem : FlatProblem} {program : Program} {objective : Objective} {bigM : Binary64}

theorem sized (h : problem.Carries program objective bigM) (hsound : program.Sound)
    (hobjective : program.objective = some objective) :
    problem.Sized program.layout.dimension program.rows.length := by
  have hcount : problem.variableCount = program.layout.dimension := by
    rw [variableCount, h.objective_eq]
    exact hsound.length_objective objective hobjective
  constructor
  · exact hcount
  · exact h.coherent.length_lower.trans hcount
  · exact h.coherent.length_upper.trans hcount
  · exact h.coherent.width_eq.trans hcount
  · rw [Matrix.height, h.matrix_rows, List.length_map]
  · rw [h.relations_eq, List.length_map]
  · rw [h.rhs_eq, List.length_map]
  · exact hcount ▸ h.coherent.integer_lt

theorem row?_eq (h : problem.Carries program objective bigM) (i : Nat) :
    problem.row? i = program.rows[i]?.map Row.coefficients := by
  rw [row?, h.matrix_rows, List.getElem?_map]

end FlatProblem.Carries

namespace Program

theorem constraintSystem_of_flatProblem {program : Program} {config : Configuration}
    {scale : Bool} {problem : FlatProblem} (h : program.flatProblem config scale = .ok problem) :
    program.constraintSystem
      = ⟨problem.matrix, problem.relations, problem.rhs, problem.integers⟩ := by
  unfold flatProblem at h
  split at h
  · cases h
  · rw [← Except.ok.inj h]

theorem Sound.exists_coefficient {program : Program} (h : program.Sound) {i j : Nat}
    (hi : i < program.rows.length) (hj : j < program.layout.dimension) :
    ∃ row x, program.rows[i]? = some row ∧ row.coefficients[j]? = some x := by
  have hlen := h.length_row program.rows[i] (List.getElem_mem hi)
  exact ⟨_, _, List.getElem?_eq_getElem hi, List.getElem?_eq_getElem (hlen ▸ hj)⟩

/-- **The flat problem of a program is whole, and it loads.** A reachable program with an objective
has a flat problem. Its parts have one number for each variable; the rows of its matrix are those of
the program and there are none after them; every element of the matrix is a coefficient that the
program has; taken together with relations and right-hand sides the rows are again those of the
program; and they are the ones that the program gives without an objective. The staging solver
loads it whatever has been staged or solved before. -/
theorem flatProblem_loads {program : Program} (hreach : program.Reachable) {objective : Objective}
    (hobjective : program.objective = some objective) (config : Configuration) (scale : Bool) :
    ∃ problem, program.flatProblem config scale = .ok problem
      ∧ problem.Carries program objective config.bigM
      ∧ problem.Sized program.layout.dimension program.rows.length
      ∧ (∀ i, problem.row? i = program.rows[i]?.map Row.coefficients)
      ∧ (∀ i < program.rows.length, ∀ j < program.layout.dimension, ∃ row x,
        program.rows[i]? = some row ∧ row.coefficients[j]? = some x
          ∧ (problem.row? i).bind (fun coefficients => coefficients[j]?) = some x)
      ∧ problem.rows = program.rows
      ∧ program.constraintSystem
        = ⟨problem.matrix, problem.relations, problem.rhs, problem.integers⟩
      ∧ ∀ name backend running state, (Staging.solver name backend running).load problem state
        = (.ok (), ⟨some (.ofFlat problem), none⟩) := by
  have hsound := hreach.sound
  obtain ⟨problem, hproblem, hcarries⟩ := hsound.exists_flatProblem hobjective config scale
  refine ⟨problem, hproblem, hcarries, hcarries.sized hsound hobjective, hcarries.row?_eq, ?_,
    hcarries.rows_eq, constraintSystem_of_flatProblem hproblem, ?_⟩
  · intro i hi j hj
    obtain ⟨row, x, hrow, hx⟩ := hsound.exists_coefficient hi hj
    refine ⟨row, x, hrow, hx, ?_⟩
    rw [hcarries.row?_eq, hrow]
    exact hx
  · intro name backend running state
    exact Staging.load_eq_ok hcarries.coherent name backend running state

/-- Two blocks, of which the first is refused at first, and a row that fails between two others. -/
theorem flatProblem_loads_two_rows :
    let layout := Layout.ofAttempts
      [("x", .ofShape {} [2, 0]),
        ("x", ⟨[2], .uniform .negZero, .uniform (.infinity false), .integer⟩), ("y", .scalar {})]
    let program := (run
      [.write (.arrays [("y", .uniform (.infinity true))] .zero .eq),
        .write (.items [⟨"x", .flat 1, .zero⟩, ⟨"x", .flat 2, .zero⟩] .zero .le),
        .write (.objective [("x", .uniform .negZero)] .maximize),
        .write (.edits [] .zero .ge)] ⟨.ofLayout layout, {}⟩).program
    ∃ objective problem, program.objective = some objective
      ∧ program.flatProblem {} true = .ok problem ∧ problem.Sized 3 2
      ∧ problem.row? 2 = none
      ∧ ∀ name backend running state, (Staging.solver name backend running).load problem state
        = (.ok (), ⟨some (.ofFlat problem), none⟩) := by
  intro layout program
  have hreach : program.Reachable := ⟨_, _, _, rfl⟩
  obtain ⟨objective, hobjective⟩ : ∃ objective, program.objective = some objective := ⟨_, rfl⟩
  obtain ⟨problem, hproblem, -, hsized, hrows, -, -, -, hload⟩ :=
    flatProblem_loads hreach hobjective {} true
  exact ⟨objective, problem, hobjective, hproblem, hsized, hrows 2, hload⟩

end Program

end LinearModel
