import LinearModel.Error
import LinearModel.FlatProblem

/-!
# Solvers

A solver is a state and a set of steps on it. A problem is built by `create`, one step for each of
its parts and one for each row, and then solved; after that its objective value and its variable
values can be asked for. A step may fail, and it leaves a next state behind either way: what a
failed step has done to the solver counts.

`load` takes a whole flat problem through these steps. It stops at the first that fails.
-/

namespace LinearModel

/-- A step of a solver with state `σ`: an answer or an error, and in both cases the next state. -/
abbrev SolverStep (σ α : Type) : Type := ExceptT SolverError (StateM σ) α

/-- What a solver can do. -/
structure Solver (σ : Type) where
  name : String
  /-- Whether integer variables may be asked for. -/
  integerCapable : σ → Bool
  /-- A fresh problem of so many variables. -/
  create : Nat → SolverStep σ Unit
  /-- The flat indices of the integer variables. -/
  setIntegers : List Nat → SolverStep σ Unit
  setLower : List Binary64 → SolverStep σ Unit
  setUpper : List Binary64 → SolverStep σ Unit
  setObjective : List Binary64 → SolverStep σ Unit
  setSense : Sense → SolverStep σ Unit
  appendRow : Row → SolverStep σ Unit
  setScaling : Bool → SolverStep σ Unit
  solve : SolverStep σ Status
  objectiveValue : SolverStep σ Binary64
  /-- The value of every variable, by flat index. -/
  variableValues : SolverStep σ (List Binary64)
  /-- Lets go of the problem and its solution. -/
  release : σ → σ

/-- The step, with its error as an answer. -/
def SolverStep.attempt {σ α : Type} (step : SolverStep σ α) :
    SolverStep σ (Except SolverError α) :=
  fun state =>
    let (answer, next) := step state
    (.ok answer, next)

/-! ## Steps one after the other -/

theorem SolverStep.bind_ok {σ α β : Type} {step : SolverStep σ α} {state next : σ} {value : α}
    (h : step state = (.ok value, next)) (rest : α → SolverStep σ β) :
    (step >>= rest) state = rest value next := by
  show ExceptT.bindCont rest (step state).1 (step state).2 = _
  rw [h]
  rfl

theorem SolverStep.bind_error {σ α β : Type} {step : SolverStep σ α} {state next : σ}
    {error : SolverError} (h : step state = (.error error, next)) (rest : α → SolverStep σ β) :
    (step >>= rest) state = (.error error, next) := by
  show ExceptT.bindCont rest (step state).1 (step state).2 = _
  rw [h]
  rfl

/-! ## Checks and solvers -/

/-- A list with one number for each variable has to be as long as there are variables. -/
def checkDimension (expected : Nat) (values : List Binary64) : Except SolverError Unit :=
  if values.length = expected then .ok ()
  else .error (.dimensionMismatch expected values.length)

namespace Solver

variable {σ : Type}

/-- Builds a flat problem. A solver that cannot have integer variables refuses them before
anything is asked of it. -/
def load (solver : Solver σ) (problem : FlatProblem) : SolverStep σ Unit := do
  if !problem.integers.isEmpty && !solver.integerCapable (← get) then
    throw .integersUnsupported
  solver.create problem.variableCount
  solver.setIntegers problem.integers
  solver.setLower problem.lower
  solver.setUpper problem.upper
  solver.setObjective problem.objective
  solver.setSense problem.sense
  problem.rows.forM solver.appendRow
  solver.setScaling problem.scale

/-- Loads a problem, does something with it, and lets go of it whatever has happened. -/
def session {α : Type} (solver : Solver σ) (problem : FlatProblem) (body : SolverStep σ α) :
    SolverStep σ α :=
  fun state =>
    let (answer, reached) := (do solver.load problem; body : SolverStep σ α) state
    (answer, solver.release reached)

end Solver

end LinearModel
