import LinearModel.Layout.Slices
import LinearModel.Program.Assembly
import LinearModel.Program.Authoring
import LinearModel.Solution
import LinearModel.Solver.Basic

/-!
# Solving a program

A program is handed to a solver in one session: load, solve, and only from an optimum the
objective value and the variable values. The status that the solver reports is the program's
status from then on, even where the values cannot be fetched or do not fit the layout afterwards.

Each operation gives its result together with the program and the solver's state as they stand
afterwards.
-/

namespace LinearModel

variable {σ : Type}

/-- Solves the loaded problem. An optimum is fetched, which may fail in its turn; any other status
has nothing to fetch. -/
def Solver.solveAndFetch (solver : Solver σ) :
    SolverStep σ (Status × Option (Except SolverError (Binary64 × List Binary64))) := do
  let status ← solver.solve
  if status = .optimal then
    let fetched ← SolverStep.attempt do
      let objectiveValue ← solver.objectiveValue
      let values ← solver.variableValues
      return (objectiveValue, values)
    return (status, some fetched)
  else return (status, none)

namespace Program

/-- The solution that a finished session stands for. -/
def readSolution (layout : Layout) (status : Status) :
    Option (Except SolverError (Binary64 × List Binary64)) → Except ModelError Solution
  | none => .error (.notOptimal status)
  | some (.error error) => .error (.solver error)
  | some (.ok (objectiveValue, flat)) =>
    match layout.split flat with
    | .error error => .error error
    | .ok values => .ok ⟨status, objectiveValue, values⟩

/-- Solves the program for the objective it has. Without one nothing is asked of the solver. -/
def solve (config : Configuration) (solver : Solver σ) (scale : Bool) (program : Program)
    (state : σ) : Except ModelError Solution × Program × σ :=
  match program.flatProblem config scale with
  | .error error => (.error error, program, state)
  | .ok problem =>
    match solver.session problem solver.solveAndFetch state with
    | (.error error, next) => (.error (.solver error), program, next)
    | (.ok (status, fetched), next) =>
      (readSolution program.layout status fetched, { program with status := status }, next)

/-- Sets the objective and solves the program for it. -/
def solveFor (config : Configuration) (solver : Solver σ) (arrays : List (String × Dense))
    (sense : Sense) (scale : Bool) (program : Program) (state : σ) :
    Except ModelError Solution × Program × σ :=
  match program.setObjective config arrays sense with
  | (.error error, next) => (.error error, next, state)
  | (.ok (), next) => next.solve config solver scale state

end Program

end LinearModel
