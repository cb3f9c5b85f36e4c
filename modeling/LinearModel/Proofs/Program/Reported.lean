import LinearModel.Proofs.Program.Solving
import LinearModel.Proofs.Solver.History
import LinearModel.Proofs.Solver.Snapping

/-!
# The reported objective

A solution reports an objective value and the values of the variables, and the one should be the
objective of the other. Without scaling both are the backend's, so this rests on what the backend
promises. With scaling the values are moved first and the objective value is summed up from what has
become of them; the sum goes over the flat vector, the caller sees arrays under names, and both have
the same products in them (`Layout.weigh_eq_dot`). The sum is taken in 64-bit numbers, so it is the
exact one only as long as nothing is rounded.

* `Backend.IsExact` — what is assumed of a backend
* `Staging.report_of_ends` — what a session with the staging solver fetches
* `Program.solve_reports` — the objective value and the values of a solution
* `Program.solve_reports_rounded` — an objective value that is off, as one was rounded away
-/

namespace LinearModel

/-! ## Weighing arrays -/

/-- The sum over all blocks and index vectors of the coefficient at the flat place times the value,
exactly. -/
def Layout.weigh (layout : Layout) (coefficients : List Binary64) (values : Named Tensor) : Rat :=
  (layout.blocks.map fun block =>
    (block.shape.indices.map fun index =>
      (coefficients.getD (block.offset + block.shape.position index) .zero).exact
        * ((Named.at? values block.name index).getD .zero).exact).sum).sum

/-- **Arrays weigh as much as the vector from which they are read off.** -/
theorem Layout.weigh_eq_dot {layout : Layout} (hwf : layout.WellFormed)
    {coefficients flat : List Binary64} (hlen : coefficients.length = layout.dimension)
    {values : Named Tensor} (hread : layout.ReadsOff flat values) :
    layout.weigh coefficients values = dot coefficients (flat.map Binary64.exact) := by
  have hexact : (flat.map Binary64.exact).length = layout.dimension := by
    rw [List.length_map, hread.length_eq]
  have hdot : dot coefficients (flat.map Binary64.exact)
      = (layout.blocks.map fun block =>
        dot ((coefficients.drop block.offset).take block.length)
          (((flat.map Binary64.exact).drop block.offset).take block.length)).sum := by
    -- both vectors are their slices behind one another
    rw [← dot_flatMap fun block _ => by simp [hlen, hread.length_eq], hwf.flatMap_slice hlen,
      hwf.flatMap_slice hexact]
  rw [hdot, weigh]
  refine congrArg List.sum (List.map_congr_left fun block hblock => ?_)
  have hend := hwf.offset_add_length_le hblock
  show _ = dot ((coefficients.drop block.offset).take block.shape.size)
    (((flat.map Binary64.exact).drop block.offset).take block.shape.size)
  rw [slice_eq_map_indices Binary64.zero (hlen ▸ hend), slice_eq_map_indices 0 (hexact ▸ hend), dot,
    List.zipWith_map, List.zipWith_self]
  refine congrArg List.sum (List.map_congr_left fun index hindex => ?_)
  obtain ⟨x, hat, hflat⟩ := hread.element block hblock index (Shape.mem_indices.mp hindex)
  have hvalue : (flat.map Binary64.exact).getD (block.offset + block.shape.position index) 0
      = x.exact := by
    simp [List.getD_eq_getElem?_getD, hflat]
  rw [hat, hvalue]
  rfl

/-! ## What is assumed -/

/-- An optimum of the backend is a point of finite numbers, one for each column, together with the
exact objective of this point; so the costs are finite too. -/
def Backend.IsExact (backend : Backend) : Prop :=
  ∀ problem found value, backend problem = .optimal found value →
    (∀ column ∈ problem.columns, column.cost.isFinite = true)
      ∧ (∀ j < problem.columns.length, (value j).isFinite = true)
      ∧ found.toRat? = some (dot (problem.columns.map Column.cost)
        ((List.range problem.columns.length).map fun j => (value j).exact))

/-- A backend that knows the optimum of one list of columns. -/
def Backend.knowing (columns : List Column) (found : Binary64) (value : Nat → Binary64) :
    Backend :=
  fun problem => if problem.columns = columns then .optimal found value else .failed

theorem Backend.isExact_knowing {columns : List Column} {found : Binary64} {value : Nat → Binary64}
    (hcosts : ∀ column ∈ columns, column.cost.isFinite = true)
    (hvalues : ∀ j < columns.length, (value j).isFinite = true)
    (hfound : found.toRat? = some (dot (columns.map Column.cost)
      ((List.range columns.length).map fun j => (value j).exact))) :
    (knowing columns found value).IsExact := by
  intro problem found' value' h
  rw [knowing] at h
  split at h
  · next hcolumns =>
    cases h
    rw [hcolumns]
    exact ⟨hcosts, hvalues, hfound⟩
  · cases h

/-! ## What is fetched -/

theorem FlatProblem.Coherent.map_cost {problem : FlatProblem} (h : problem.Coherent) :
    (StagedProblem.ofFlat problem).boxed.columns.map Column.cost = problem.objective := by
  have hlower := h.length_lower
  have hupper := h.length_upper
  rw [FlatProblem.variableCount] at hlower hupper
  refine List.ext_getElem ?_ fun i hi hi' => ?_
  · simp [StagedProblem.boxed, StagedProblem.columns, StagedProblem.ofFlat,
      FlatProblem.variableCount, hlower, hupper]
  · simp [StagedProblem.boxed, StagedProblem.columns, StagedProblem.ofFlat]

/-- What the backend promises, said of the objective of the program. -/
theorem FlatProblem.Carries.of_isExact {problem : FlatProblem} {program : Program}
    {objective : Objective} {bigM : Binary64} (h : problem.Carries program objective bigM)
    {backend : Backend} (hexact : backend.IsExact) {found : Binary64} {value : Nat → Binary64}
    (hoptimal : backend (StagedProblem.ofFlat problem).boxed = .optimal found value) :
    (∀ x ∈ objective.coefficients, x.isFinite = true)
      ∧ (∀ j < objective.coefficients.length, (value j).isFinite = true)
      ∧ found.toRat? = some (dot objective.coefficients
        ((List.range objective.coefficients.length).map fun j => (value j).exact)) := by
  have hcost := h.coherent.map_cost
  rw [h.objective_eq] at hcost
  have hcount : (StagedProblem.ofFlat problem).boxed.columns.length
      = objective.coefficients.length := by
    rw [← hcost, List.length_map]
  obtain ⟨hcosts, hvalues, hfound⟩ := hexact _ _ _ hoptimal
  rw [hcost, hcount] at hfound
  refine ⟨fun x hx => ?_, hcount ▸ hvalues, hfound⟩
  rw [← hcost] at hx
  obtain ⟨column, hcolumn, rfl⟩ := List.mem_map.mp hx
  exact hcosts column hcolumn

/-- **A session that fetches an optimum has it from the backend**, and hands over what is reported
of it. -/
theorem Staging.report_of_ends {problem : FlatProblem} (h : problem.Coherent) {name : String}
    {backend : Backend} {config : Configuration} {state reached : Staging}
    {objectiveValue : Binary64} {flat : List Binary64}
    (hends : (solver name backend config).Ends problem state (.fetched objectiveValue flat)
      reached) :
    ∃ found value, backend (StagedProblem.ofFlat problem).boxed = .optimal found value
      ∧ (StagedProblem.ofFlat problem).report config.tolerance found value
        = ⟨objectiveValue, flat⟩ := by
  cases hends with
  | fetched hload hsolve hvalue hvalues =>
    rw [load_eq_ok h] at hload
    cases hload
    rcases solve_cases name backend config ⟨some (.ofFlat problem), none⟩ with
      ⟨staged, found, value, hstaged, hoptimal, hsolved⟩ | ⟨-, answer, hanswer, hsolved⟩
    · cases hstaged
      rw [hsolve] at hsolved
      cases hsolved
      cases hvalue
      cases hvalues
      exact ⟨found, value, hoptimal, rfl⟩
    · rw [hsolve] at hsolved
      cases hsolved
      exact absurd rfl hanswer

namespace Program

theorem scale_of_flatProblem {program : Program} {config : Configuration} {scale : Bool}
    {problem : FlatProblem} (h : program.flatProblem config scale = .ok problem) :
    problem.scale = scale := by
  rw [flatProblem] at h
  split at h
  · cases h
  · cases h
    rfl

/-- **The reported objective is that of the reported values.** If a reachable program is solved with
the staging solver and its backend promises exact optima, then without scaling the values are those
of the backend and the objective value is the sum of coefficients times values, exactly. With
scaling each value is the nearest whole number, or the backend's value where that is farther away
than the tolerance, and moving it again changes nothing; the objective value is the sum over the
flat vector in 64-bit numbers, and it is the exact sum unless something is rounded on the way. -/
theorem solve_reports {program : Program} (hreach : program.Reachable) {objective : Objective}
    (hobjective : program.objective = some objective) (config : Configuration) (scale : Bool)
    (name : String) {backend : Backend} (hexact : backend.IsExact) (state : Staging)
    {solution : Solution}
    (hsolve : (program.solve config (Staging.solver name backend config) scale state).1
      = .ok solution) :
    ∃ problem found value, program.flatProblem config scale = .ok problem
      ∧ backend (StagedProblem.ofFlat problem).boxed = .optimal found value
      ∧ (scale = false →
        solution.objectiveValue.toRat?
            = some (program.layout.weigh objective.coefficients solution.values)
          ∧ ∀ block ∈ program.layout.blocks, ∀ index, block.shape.inRange index = true →
            Named.at? solution.values block.name index
              = some (value (block.offset + block.shape.position index)))
      ∧ (scale = true →
        (∃ flat, program.layout.join solution.values = .ok flat
          ∧ solution.objectiveValue = weightedSum objective.coefficients flat
          ∧ (Unrounded 0 objective.coefficients flat → solution.objectiveValue.toRat?
            = some (program.layout.weigh objective.coefficients solution.values)))
        ∧ ∀ block ∈ program.layout.blocks, ∀ index, block.shape.inRange index = true →
          ∃ x, Named.at? solution.values block.name index = some x
            ∧ Snapped config.tolerance (value (block.offset + block.shape.position index)) x
            ∧ snap config.tolerance x = x) := by
  have hwf := hreach.sound.layout
  have hlen := hreach.sound.length_objective objective hobjective
  obtain ⟨problem, hproblem, hcarries⟩ := hreach.sound.exists_flatProblem hobjective config scale
  obtain ⟨same, hsame, -, hok, -⟩ :=
    solve_answer hreach hobjective config (Staging.solver name backend config) scale state
  obtain rfl : problem = same := Except.ok.inj (hproblem.symm.trans hsame)
  obtain ⟨-, flat, reached, hends, hread⟩ := (hok solution).mp hsolve
  obtain ⟨found, value, hoptimal, hreport⟩ := Staging.report_of_ends hcarries.coherent hends
  obtain ⟨hweights, hvalues, hfound⟩ := hcarries.of_isExact hexact hoptimal
  rw [hlen] at hvalues hfound
  have hstaged : (StagedProblem.ofFlat problem).objective = objective.coefficients :=
    hcarries.objective_eq
  have hscale : (StagedProblem.ofFlat problem).scale = scale := scale_of_flatProblem hproblem
  rw [StagedProblem.report, hstaged, hscale, hlen] at hreport
  refine ⟨problem, found, value, hproblem, hoptimal, ?_, ?_⟩
  · rintro rfl
    simp only [Bool.false_eq_true, if_false, StagedSolution.mk.injEq] at hreport
    obtain ⟨hvalue, hflat⟩ := hreport
    constructor
    · rw [← hvalue, hfound, Layout.weigh_eq_dot hwf hlen hread, ← hflat, List.map_map]
      rfl
    · intro block hblock index hindex
      obtain ⟨x, hat, hx⟩ := hread.element block hblock index hindex
      rw [hat, ← hx, ← hflat]
      simp [hwf.place_lt hblock hindex]
  · rintro rfl
    simp only [if_true, StagedSolution.mk.injEq] at hreport
    obtain ⟨hvalue, hflat⟩ := hreport
    constructor
    · refine ⟨flat, hwf.join_of_split (hwf.split_eq_ok_iff.mpr hread), by rw [← hvalue, hflat],
        fun hunrounded => ?_⟩
      have hfinite : ∀ x ∈ flat, x.isFinite = true := by
        rw [← hflat]
        intro x hx
        simp only [List.mem_map, List.mem_range] at hx
        obtain ⟨_, ⟨j, hj, rfl⟩, rfl⟩ := hx
        exact isFinite_snap config.tolerance (hvalues j hj)
      rw [← hvalue, hflat, toRat?_weightedSum hweights hfinite hunrounded,
        Layout.weigh_eq_dot hwf hlen hread]
    · intro block hblock index hindex
      obtain ⟨x, hat, hx⟩ := hread.element block hblock index hindex
      have hj := hwf.place_lt hblock hindex
      obtain rfl : snap config.tolerance (value (block.offset + block.shape.position index)) = x :=
        by
          rw [← hflat] at hx
          simpa [hj] using hx
      exact ⟨_, hat, snapped_snap config.tolerance (hvalues _ hj), snap_snap _ _⟩

/-- Two variables that are fixed a little above one, and reported as one. -/
theorem solve_reports_fixed :
    let near := Binary64.ofRat (1 + 1 / 2 ^ 30)
    let block := Block.declare {} (some [2]) (some (.uniform near)) (some (.uniform near)) .continuous
    let program := (run
      [.write (.objective [("x", .explicit (Tensor.ofList [.ofInt 2, .ofInt 3]))] .maximize)]
      ⟨.ofLayout (.ofAttempts [("x", block)]), {}⟩).program
    let columns : List Column := [⟨.ofInt 2, .interval near near⟩, ⟨.ofInt 3, .interval near near⟩]
    let backend := Backend.knowing columns (.ofRat (5 + 5 / 2 ^ 30)) fun _ => near
    ∃ objective solution, program.objective = some objective
      ∧ (program.solve {} (Staging.solver "microlp" backend {}) true .empty).1 = .ok solution
      ∧ solution.objectiveValue.toRat?
        = some (program.layout.weigh objective.coefficients solution.values)
      ∧ solution.objectiveValue.toRat? = some 5 := by
  intro near block program columns backend
  have hreach : program.Reachable := ⟨_, _, _, rfl⟩
  have hexact : backend.IsExact :=
    Backend.isExact_knowing (by decide +kernel) (by decide +kernel) (by decide +kernel)
  have hobjective : program.objective = some ⟨[.ofInt 2, .ofInt 3], .maximize⟩ := by
    decide +kernel
  have hsolve : (program.solve {} (Staging.solver "microlp" backend {}) true .empty).1
      = .ok ⟨.optimal, .ofInt 5, [("x", Tensor.ofList [.ofInt 1, .ofInt 1])]⟩ := by
    decide +kernel
  obtain ⟨_, _, _, -, -, -, hscaled⟩ :=
    solve_reports hreach hobjective {} true "microlp" hexact .empty hsolve
  obtain ⟨⟨flat, hjoin, -, hsum⟩, -⟩ := hscaled rfl
  obtain rfl : [.ofInt 1, .ofInt 1] = flat := Except.ok.inj hjoin
  refine ⟨_, _, hobjective, hsolve, hsum ?_, by decide +kernel⟩
  -- the products and the sums are small whole numbers
  have hwhole : ∀ (q : Rat) (n : Int), q = n → n.natAbs ≤ 2 ^ 53 → Representable q :=
    fun q n hq hn => hq ▸ Binary64.representable_intCast hn
  exact ⟨hwhole _ 2 (by decide +kernel) (by decide), hwhole _ 2 (by decide +kernel) (by decide),
    hwhole _ 3 (by decide +kernel) (by decide), hwhole _ 5 (by decide +kernel) (by decide), trivial⟩

/-- **A sum in 64-bit numbers is not the exact one.** The values are those of the backend, which has
found their objective to be one; next to the two large products the one is rounded away, and zero is
reported. -/
theorem solve_reports_rounded :
    let one := Binary64.ofInt 1
    let large := Binary64.ofInt (2 ^ 53)
    let block := Block.declare {} (some [3]) (some (.uniform one)) (some (.uniform one)) .continuous
    let program := (run
      [.write (.objective [("x", .explicit (Tensor.ofList [large, one, -large]))] .minimize)]
      ⟨.ofLayout (.ofAttempts [("x", block)]), {}⟩).program
    let columns : List Column :=
      [⟨large, .interval one one⟩, ⟨one, .interval one one⟩, ⟨-large, .interval one one⟩]
    let backend := Backend.knowing columns one fun _ => one
    program.Reachable ∧ backend.IsExact ∧ ∃ objective solution,
      program.objective = some objective
        ∧ (program.solve {} (Staging.solver "microlp" backend {}) true .empty).1 = .ok solution
        ∧ program.layout.weigh objective.coefficients solution.values = 1
        ∧ solution.objectiveValue.toRat? = some 0 := by
  intro one large block program columns backend
  refine ⟨⟨_, _, _, rfl⟩, ?_, ?_⟩
  · refine Backend.isExact_knowing ?_ ?_ ?_
    · decide +kernel
    · decide +kernel
    · decide +kernel
  · refine ⟨⟨[large, one, -large], .minimize⟩,
      ⟨.optimal, .zero, [("x", Tensor.ofList [one, one, one])]⟩, ?_, ?_, ?_, ?_⟩
    · decide +kernel
    · decide +kernel
    · decide +kernel
    · rfl

end Program

end LinearModel
