import LinearModel.Proofs.Traversal
import LinearModel.Solver.Staging

/-!
# What loading stages

Loading takes a flat problem through the steps of a solver one part at a time. If the parts fit one
another, no step of the staging solver fails, and the state that is reached is known: it holds the
problem `StagedProblem.ofFlat`, whatever was staged or solved before.

* `StagedProblem.setIntegers_eq_ok` — the flags that stand are those of the listed variables
* `load_of_loadable` — the staged problem after loading
-/

namespace LinearModel

/-- The parts of the problem fit one another. -/
structure FlatProblem.Coherent (problem : FlatProblem) : Prop where
  width_eq : problem.matrix.width = problem.variableCount
  length_lower : problem.lower.length = problem.variableCount
  length_upper : problem.upper.length = problem.variableCount
  integer_lt : ∀ i ∈ problem.integers, i < problem.variableCount

/-- The parts that are asked for while loading fit one another: where there is no row, nothing is
asked of the matrix. -/
structure FlatProblem.Loadable (problem : FlatProblem) : Prop where
  width_eq_or_rows_eq : problem.matrix.width = problem.variableCount ∨ problem.rows = []
  length_lower : problem.lower.length = problem.variableCount
  length_upper : problem.upper.length = problem.variableCount
  integer_lt : ∀ i ∈ problem.integers, i < problem.variableCount

theorem FlatProblem.Coherent.loadable {problem : FlatProblem} (h : problem.Coherent) :
    problem.Loadable := ⟨.inl h.width_eq, h.length_lower, h.length_upper, h.integer_lt⟩

/-- A row as it is staged: without the terms whose weight is zero. -/
def SparseRow.ofRow (row : Row) : SparseRow := ⟨Row.terms row.coefficients, row.relation, row.rhs⟩

/-- The staged form of a flat problem. -/
def StagedProblem.ofFlat (problem : FlatProblem) : StagedProblem where
  integer := (List.range problem.variableCount).map fun i => decide (i ∈ problem.integers)
  lower := problem.lower
  upper := problem.upper
  objective := problem.objective
  sense := problem.sense
  rows := problem.rows.map .ofRow
  scale := problem.scale

/-! ## Terms -/

namespace Row

/-- The terms are the coefficients that are not zero, each with its index. -/
theorem mem_terms {coefficients : List Binary64} {term : Nat × Binary64} :
    term ∈ terms coefficients ↔ coefficients[term.1]? = some term.2 ∧ term.2.isZero = false := by
  obtain ⟨i, coefficient⟩ := term
  simp only [terms, List.mem_map, List.mem_filter, Bool.not_eq_eq_eq_not, Bool.not_true,
    Prod.mk.injEq, Prod.exists, List.mem_zipIdx_iff_getElem?]
  constructor
  · rintro ⟨_, _, ⟨hget, hzero⟩, rfl, rfl⟩
    exact ⟨hget, hzero⟩
  · rintro ⟨hget, hzero⟩
    exact ⟨coefficient, i, ⟨hget, hzero⟩, rfl, rfl⟩

theorem pairwise_terms (coefficients : List Binary64) :
    (terms coefficients).Pairwise fun first second => first.1 < second.1 := by
  rw [terms, List.pairwise_map]
  refine List.Pairwise.filter _ ?_
  rw [← List.pairwise_map (f := Prod.snd) (R := (· < ·)), List.zipIdx_map_snd]
  exact List.pairwise_lt_range'

end Row

theorem FlatProblem.length_row (problem : FlatProblem) :
    ∀ row ∈ problem.rows, row.coefficients.length = problem.matrix.width := by
  intro row hrow
  obtain ⟨i, hi, rfl⟩ := List.mem_iff_getElem.mp hrow
  simp only [FlatProblem.rows, List.getElem_zipWith]
  exact problem.matrix.length_rows _ (List.getElem_mem _)

/-- All rows have the width of the matrix, so a row that is there decides for them all. -/
theorem FlatProblem.length_row_iff {problem : FlatProblem} {n : Nat} :
    (∀ row ∈ problem.rows, row.coefficients.length = n)
      ↔ problem.matrix.width = n ∨ problem.rows = [] := by
  constructor
  · intro h
    cases hrows : problem.rows with
    | nil => exact .inr rfl
    | cons row rest =>
      have hmem : row ∈ problem.rows := hrows ▸ List.mem_cons_self
      exact .inl ((problem.length_row row hmem).symm.trans (h row hmem))
  · rintro (rfl | hnone)
    · exact problem.length_row
    · simp [hnone]

/-! ## Steps that succeed -/

namespace StagedProblem

variable {problem : StagedProblem}

theorem setChecked_eq_ok {values : List Binary64} {expected : Nat} (h : values.length = expected)
    (set : StagedProblem → StagedProblem) (problem : StagedProblem) :
    problem.setChecked expected values set = (.ok (), set problem) := by
  rw [setChecked, checkDimension, if_pos h]

theorem setChecked_eq_error {values : List Binary64} {expected : Nat}
    (h : values.length ≠ expected) (set : StagedProblem → StagedProblem)
    (problem : StagedProblem) :
    problem.setChecked expected values set
      = (.error (.dimensionMismatch expected values.length), problem) := by
  rw [setChecked, checkDimension, if_neg h]

theorem setLower_eq_ok {bounds : List Binary64} (h : bounds.length = problem.lower.length) :
    problem.setLower bounds = (.ok (), { problem with lower := bounds }) :=
  setChecked_eq_ok h _ problem

theorem setUpper_eq_ok {bounds : List Binary64} (h : bounds.length = problem.upper.length) :
    problem.setUpper bounds = (.ok (), { problem with upper := bounds }) :=
  setChecked_eq_ok h _ problem

theorem setObjective_eq_ok {coefficients : List Binary64}
    (h : coefficients.length = problem.objective.length) :
    problem.setObjective coefficients = (.ok (), { problem with objective := coefficients }) :=
  setChecked_eq_ok h _ problem

theorem appendRow_eq_ok {row : Row} (h : row.coefficients.length = problem.objective.length) :
    problem.appendRow row = (.ok (), { problem with rows := problem.rows ++ [.ofRow row] }) :=
  setChecked_eq_ok h _ problem

/-- The flags of the indices in front are raised, where they all exist, and then it goes on. -/
theorem raiseFlags_append {n : Nat} {indices : List Nat} (h : ∀ i ∈ indices, i < n)
    (rest : List Nat) (raised : Nat → Bool) :
    raiseFlags (indices ++ rest) ((List.range n).map raised)
      = raiseFlags rest ((List.range n).map fun i => decide (i ∈ indices) || raised i) := by
  induction indices generalizing raised with
  | nil => simp
  | cons first others ih =>
    have hfirst : first < ((List.range n).map raised).length := by
      simpa using h first List.mem_cons_self
    rw [List.cons_append, raiseFlags, if_pos hfirst, set_map_range,
      ih (fun i hi => h i (List.mem_cons_of_mem _ hi))]
    refine congrArg (raiseFlags rest) (List.map_congr_left fun i _ => ?_)
    by_cases hi : i = first <;> simp [hi]

/-- Flags that all exist are raised. -/
theorem raiseFlags_eq_ok {n : Nat} {indices : List Nat} (h : ∀ i ∈ indices, i < n)
    (raised : Nat → Bool) :
    raiseFlags indices ((List.range n).map raised)
      = (.ok (), (List.range n).map fun i => decide (i ∈ indices) || raised i) := by
  simpa [raiseFlags] using raiseFlags_append h [] raised

/-- Whatever the flags were, they are raised from those that are all down. -/
theorem setIntegers_eq (indices : List Nat) (problem : StagedProblem) :
    problem.setIntegers indices
      = ((raiseFlags indices ((List.range problem.integer.length).map fun _ => false)).1,
        { problem with integer :=
          (raiseFlags indices ((List.range problem.integer.length).map fun _ => false)).2 }) := by
  rw [List.map_const', List.length_range]
  rfl

/-- **After the flags are set, those of the listed variables stand and no others.** -/
theorem setIntegers_eq_ok {indices : List Nat}
    (h : ∀ i ∈ indices, i < problem.integer.length) :
    problem.setIntegers indices = (.ok (), { problem with
      integer := (List.range problem.integer.length).map fun i => decide (i ∈ indices) }) := by
  rw [setIntegers_eq, raiseFlags_eq_ok h]
  simp

end StagedProblem

namespace Staging

theorem revise_bind {α : Type} {change : StagedProblem → Except SolverError Unit × StagedProblem}
    {problem next : StagedProblem} (h : change problem = (.ok (), next))
    (solution : Option StagedSolution) (rest : Unit → SolverStep Staging α) :
    (revise change >>= rest) ⟨some problem, solution⟩ = rest () ⟨some next, none⟩ := by
  refine SolverStep.bind_ok ?_ rest
  rw [revise]
  simp only [h]

theorem revise_set_bind {α : Type} (set : StagedProblem → StagedProblem) (problem : StagedProblem)
    (solution : Option StagedSolution) (rest : Unit → SolverStep Staging α) :
    (revise (fun problem => (.ok (), set problem)) >>= rest) ⟨some problem, solution⟩
      = rest () ⟨some (set problem), none⟩ := revise_bind rfl solution rest

theorem forM_appendRow {rows : List Row} {problem : StagedProblem}
    (h : ∀ row ∈ rows, row.coefficients.length = problem.objective.length) :
    rows.forM (fun row => revise (StagedProblem.appendRow row)) ⟨some problem, none⟩
      = (.ok (), ⟨some { problem with rows := problem.rows ++ rows.map .ofRow }, none⟩) := by
  induction rows generalizing problem with
  | nil =>
    rw [List.map_nil, List.append_nil]
    rfl
  | cons row rest ih =>
    have hrest := @ih { problem with rows := problem.rows ++ [.ofRow row] }
      fun other hother => h other (List.mem_cons_of_mem _ hother)
    show (revise (StagedProblem.appendRow row) >>= fun _ => rest.forM _) _ = _
    rw [revise_bind (StagedProblem.appendRow_eq_ok (h row List.mem_cons_self)), hrest]
    simp

/-- **Loading a problem whose parts fit one another succeeds, and what is staged is the problem.**
-/
theorem load_of_loadable {problem : FlatProblem} (h : problem.Loadable) (name : String)
    (backend : Backend) (config : Configuration) (state : Staging) :
    (solver name backend config).load problem state
      = (.ok (), ⟨some (.ofFlat problem), none⟩) := by
  have hget : (get : SolverStep Staging Staging) state = (.ok state, state) := rfl
  have hcreate : (solver name backend config).create problem.variableCount state
      = (.ok (), ⟨some (.blank problem.variableCount), none⟩) := rfl
  unfold Solver.load
  rw [SolverStep.bind_ok hget]
  -- the solver has integer variables, so the guard is passed
  simp only [show (solver name backend config).integerCapable state = true from rfl, Bool.not_true,
    Bool.and_false, Bool.false_eq_true, if_false]
  rw [SolverStep.bind_ok hcreate]
  simp only [solver]
  -- the lengths that the steps compare with are those of the blank problem throughout
  rw [revise_bind (StagedProblem.setIntegers_eq_ok
      (by simpa [StagedProblem.blank] using h.integer_lt)),
    revise_bind (StagedProblem.setLower_eq_ok (by simp [StagedProblem.blank, h.length_lower])),
    revise_bind (StagedProblem.setUpper_eq_ok (by simp [StagedProblem.blank, h.length_upper])),
    revise_bind (StagedProblem.setObjective_eq_ok (by
      simp [StagedProblem.blank, FlatProblem.variableCount])),
    revise_set_bind, SolverStep.bind_ok
      (forM_appendRow (by exact FlatProblem.length_row_iff.mpr h.width_eq_or_rows_eq))]
  simp [revise, StagedProblem.blank, StagedProblem.ofFlat]

theorem load_eq_ok {problem : FlatProblem} (h : problem.Coherent) (name : String)
    (backend : Backend) (config : Configuration) (state : Staging) :
    (solver name backend config).load problem state
      = (.ok (), ⟨some (.ofFlat problem), none⟩) :=
  load_of_loadable h.loadable name backend config state

end Staging

end LinearModel
