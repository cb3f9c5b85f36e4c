import LinearModel.Proofs.Program.Solving
import LinearModel.Proofs.Solver.Sizes
import Mathlib.Data.List.Forall2

/-!
# Loading anew

A staging solver can be used again and again. Loading overwrites every part of what was staged, so
neither the answer nor the state that is reached depends on what the solver has done before, and
solving a program with a used solver is solving it with a new one.

* `StagedProblem.Carries` — the staged problem is the flat one, part by part
* `Staging.load_eq_ok_iff` — which problems are loaded
* `Staging.load_exact_and_anew` — both, and what they come to for sessions and programs
-/

namespace LinearModel

/-- A staged row holds the terms of a row that are not zero, in their order, and its other parts. -/
structure SparseRow.Carries (sparse : SparseRow) (row : Row) : Prop where
  relation_eq : sparse.relation = row.relation
  rhs_eq : sparse.rhs = row.rhs
  ascending : sparse.terms.Pairwise fun first second => first.1 < second.1
  mem_terms : ∀ (j : Nat) (coefficient : Binary64), (j, coefficient) ∈ sparse.terms
    ↔ row.coefficients[j]? = some coefficient ∧ coefficient.isZero = false

/-- The parts of the staged problem are those of the flat one. -/
structure StagedProblem.Carries (staged : StagedProblem) (problem : FlatProblem) : Prop where
  objective_eq : staged.objective = problem.objective
  lower_eq : staged.lower = problem.lower
  upper_eq : staged.upper = problem.upper
  sense_eq : staged.sense = problem.sense
  scale_eq : staged.scale = problem.scale
  length_integer : staged.integer.length = problem.variableCount
  integer_iff : ∀ i < problem.variableCount, staged.integer[i]? = some true ↔ i ∈ problem.integers
  rows : List.Forall₂ SparseRow.Carries staged.rows problem.rows

theorem SparseRow.carries_ofRow (row : Row) : (SparseRow.ofRow row).Carries row where
  relation_eq := rfl
  rhs_eq := rfl
  ascending := Row.pairwise_terms row.coefficients
  mem_terms _ _ := Row.mem_terms

theorem StagedProblem.carries_ofFlat (problem : FlatProblem) :
    (ofFlat problem).Carries problem where
  objective_eq := rfl
  lower_eq := rfl
  upper_eq := rfl
  sense_eq := rfl
  scale_eq := rfl
  length_integer := by simp [ofFlat]
  integer_iff i hi := by simp [ofFlat, hi]
  rows := by
    show List.Forall₂ _ (problem.rows.map _) problem.rows
    rw [List.forall₂_map_left_iff, List.forall₂_same]
    exact fun row _ => SparseRow.carries_ofRow row

namespace Staging

variable {name : String} {backend : Backend} {config : Configuration} {problem : FlatProblem}

/-- The calls of loading fit exactly if the parts do. -/
theorem fits_calls_iff :
    (∀ call ∈ problem.calls.tail, call.Fits problem.variableCount) ↔ problem.Loadable := by
  have hcalls : (∀ call ∈ problem.calls.tail, call.Fits problem.variableCount)
      ↔ (∀ i ∈ problem.integers, i < problem.variableCount)
        ∧ problem.lower.length = problem.variableCount
        ∧ problem.upper.length = problem.variableCount
        ∧ ∀ row ∈ problem.rows, row.coefficients.length = problem.variableCount := by
    simp only [FlatProblem.calls, List.cons_append, List.tail_cons, List.nil_append,
      List.forall_mem_cons, List.forall_mem_append, List.forall_mem_map, SolverCall.Fits]
    simp [FlatProblem.variableCount]
  rw [hcalls, FlatProblem.length_row_iff]
  constructor
  · rintro ⟨hinteger, hlower, hupper, hrows⟩
    exact ⟨hrows, hlower, hupper, hinteger⟩
  · intro h
    exact ⟨h.integer_lt, h.length_lower, h.length_upper, h.width_eq_or_rows_eq⟩

/-- **A problem is loaded exactly if the parts that are asked for fit one another**, and otherwise
an error is answered. -/
theorem load_eq_ok_iff (state : Staging) :
    ((solver name backend config).load problem state).1 = .ok () ↔ problem.Loadable := by
  obtain ⟨answer, next, -, hload, hanswer⟩ := load_cases name backend config problem
  rw [hload, hanswer, fits_calls_iff]

theorem load_eq_load (name : String) (backend : Backend) (config : Configuration)
    (problem : FlatProblem) (state other : Staging) :
    (solver name backend config).load problem state
      = (solver name backend config).load problem other := by
  obtain ⟨answer, next, -, hload, -⟩ := load_cases name backend config problem
  rw [hload, hload]

theorem session_eq_session {α : Type} (body : SolverStep Staging α) (state other : Staging) :
    (solver name backend config).session problem body state
      = (solver name backend config).session problem body other := by
  have hload := load_eq_load name backend config problem state other
  have hrun : (do (solver name backend config).load problem; body : SolverStep Staging α) state
      = (do (solver name backend config).load problem; body : SolverStep Staging α) other := by
    rcases h : (solver name backend config).load problem other with ⟨error | ⟨⟩, next⟩ <;>
      rw [h] at hload
    · rw [SolverStep.bind_error hload, SolverStep.bind_error h]
    · rw [SolverStep.bind_ok hload, SolverStep.bind_ok h]
  rw [Solver.session, Solver.session, hrun]

/-- **Loading is exact, and nothing of what was before remains.** A problem is loaded exactly if its
integer variables exist, its bounds are as many as its variables, and its matrix is as wide or no
row is made of it. What is staged then has the parts of the problem, and no solution is there.
Answer and state are those of loading into any other state. So solving a program gives the same
result and the same program with any two states of a solver, and unless nothing is asked of the
solver it leaves the same state behind. -/
theorem load_exact_and_anew (name : String) (backend : Backend) (config : Configuration) :
    (∀ problem state, ((solver name backend config).load problem state).1 = .ok ()
        ↔ problem.Loadable)
      ∧ (∀ problem : FlatProblem, problem.Loadable → ∃ staged : StagedProblem,
        staged.Carries problem
          ∧ ∀ state, (solver name backend config).load problem state
            = (.ok (), ⟨some staged, none⟩))
      ∧ (∀ problem state other, (solver name backend config).load problem state
        = (solver name backend config).load problem other)
      ∧ ∀ (program : Program) (scale : Bool) (state other : Staging),
        let solve := program.solve config (solver name backend config) scale
        (solve state).1 = (solve other).1 ∧ (solve state).2.1 = (solve other).2.1
          ∧ (program.objective ≠ none → (solve state).2.2 = (solve other).2.2) := by
  refine ⟨fun _ state => load_eq_ok_iff state, fun problem hloadable => ?_,
    load_eq_load name backend config, fun program scale state other => ?_⟩
  · exact ⟨.ofFlat problem, StagedProblem.carries_ofFlat problem,
      fun state => load_of_loadable hloadable name backend config state⟩
  · intro solve
    by_cases hobjective : program.objective = none
    · have hsolve : ∀ state, solve state = (.error .noObjective, program, state) :=
        Program.solve_of_none hobjective config (solver name backend config) scale
      rw [hsolve, hsolve]
      exact ⟨rfl, rfl, fun h => absurd hobjective h⟩
    · obtain ⟨problem, hproblem⟩ := Program.exists_flatProblem hobjective config scale
      have hsolve : solve state = solve other := by
        simp only [solve, Program.solve, hproblem]
        rw [session_eq_session _ state other]
      rw [hsolve]
      exact ⟨rfl, rfl, fun _ => rfl⟩

end Staging

end LinearModel
