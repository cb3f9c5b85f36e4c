import LinearModel.Backend
import LinearModel.Configuration
import LinearModel.Solver.Basic

/-!
# The staging solver

A backend takes a problem whole, while a solver is given it part by part. The staging solver keeps
the parts until it is told to solve, and hands them to its backend together. A staged variable
starts out continuous, between zero and infinity, and with no weight.

Any part that is set anew makes a solution that was there void, also where setting it fails.
Solving again does not: only an optimum replaces what an earlier one has left.

## Whole numbers

Integer flags are set one at a time after all have been taken down, so a list with an index that
is too large leaves the flags before it set. For the backend the bounds of an integer variable are
rounded inwards and brought into the range of a 32-bit integer. If scaling is asked for, a value
that is within the configured tolerance of a whole number is moved onto it, and the objective
value is summed up from the values moved.
-/

namespace LinearModel

/-- A problem as far as its parts have been given. -/
structure StagedProblem where
  integer : List Bool
  lower : List Binary64
  upper : List Binary64
  objective : List Binary64
  sense : Sense
  rows : List SparseRow
  scale : Bool
  deriving DecidableEq

/-- The solution of a staged problem. -/
structure StagedSolution where
  objectiveValue : Binary64
  values : List Binary64
  deriving DecidableEq

/-- The state of the staging solver. -/
structure Staging where
  problem : Option StagedProblem
  solution : Option StagedSolution
  deriving DecidableEq

namespace StagedProblem

/-- So many continuous variables without rows. -/
def blank (variableCount : Nat) : StagedProblem where
  integer := List.replicate variableCount false
  lower := List.replicate variableCount .zero
  upper := List.replicate variableCount (.infinity false)
  objective := List.replicate variableCount .zero
  sense := .minimize
  rows := []
  scale := false

/-! ## Setting the parts -/

/-- Raises the flags one after the other, as far as the first index that has none. -/
def raiseFlags : List Nat → List Bool → Except SolverError Unit × List Bool
  | [], flags => (.ok (), flags)
  | i :: rest, flags =>
    if i < flags.length then raiseFlags rest (flags.set i true)
    else (.error (.backend s!"integer index {i} is outside of {flags.length} variables"), flags)

def setIntegers (indices : List Nat) (problem : StagedProblem) :
    Except SolverError Unit × StagedProblem :=
  let (answer, flags) := raiseFlags indices (List.replicate problem.integer.length false)
  (answer, { problem with integer := flags })

/-- Sets a part if a list is as long as there are variables. -/
def setChecked (expected : Nat) (values : List Binary64) (set : StagedProblem → StagedProblem)
    (problem : StagedProblem) : Except SolverError Unit × StagedProblem :=
  match checkDimension expected values with
  | .ok () => (.ok (), set problem)
  | .error error => (.error error, problem)

def setLower (bounds : List Binary64) (problem : StagedProblem) :
    Except SolverError Unit × StagedProblem :=
  problem.setChecked problem.lower.length bounds fun p => { p with lower := bounds }

def setUpper (bounds : List Binary64) (problem : StagedProblem) :
    Except SolverError Unit × StagedProblem :=
  problem.setChecked problem.upper.length bounds fun p => { p with upper := bounds }

def setObjective (coefficients : List Binary64) (problem : StagedProblem) :
    Except SolverError Unit × StagedProblem :=
  problem.setChecked problem.objective.length coefficients
    fun p => { p with objective := coefficients }

/-- Only the terms whose weight is not zero are kept. -/
def appendRow (row : Row) (problem : StagedProblem) : Except SolverError Unit × StagedProblem :=
  problem.setChecked problem.objective.length row.coefficients fun p =>
    { p with rows := p.rows ++ [⟨Row.terms row.coefficients, row.relation, row.rhs⟩] }

/-! ## Handing over -/

/-- The range that a variable has for the backend. -/
def rangeOf (integer : Bool) (lower upper : Binary64) : Range :=
  if integer then .integers (lower.toInt32 Rat.ceil) (upper.toInt32 Rat.floor)
  else .interval lower upper

def columns (problem : StagedProblem) : List Column :=
  List.zipWith (fun cost range => ⟨cost, range⟩) problem.objective
    (List.zipWith (fun integer bounds => rangeOf integer bounds.1 bounds.2) problem.integer
      (problem.lower.zip problem.upper))

/-- The problem whole, as the backend takes it. -/
def boxed (problem : StagedProblem) : BoxedProblem := ⟨problem.sense, problem.columns, problem.rows⟩

end StagedProblem

/-! ## Taking over the optimum -/

/-- The nearest whole number, if it is within the tolerance. -/
def snap (tolerance value : Binary64) : Binary64 :=
  let rounded := value.roundHalfAway
  if (value - rounded).abs ≤ tolerance then rounded else value

/-- The sum of the products, added up from the front. -/
def weightedSum (weights values : List Binary64) : Binary64 :=
  (List.zipWith (· * ·) weights values).foldl (· + ·) .zero

/-- The solution that a backend's optimum is reported as. -/
def StagedProblem.report (problem : StagedProblem) (tolerance objectiveValue : Binary64)
    (value : Nat → Binary64) : StagedSolution :=
  let raw := (List.range problem.objective.length).map value
  if problem.scale then
    let values := raw.map (snap tolerance)
    ⟨weightedSum problem.objective values, values⟩
  else ⟨objectiveValue, raw⟩

namespace Staging

/-- Nothing staged and nothing solved. -/
def empty : Staging := ⟨none, none⟩

instance : Inhabited Staging := ⟨empty⟩

/-- Changes the staged problem; a solution that was there is void. -/
def revise (change : StagedProblem → Except SolverError Unit × StagedProblem) :
    SolverStep Staging Unit :=
  fun state =>
    match state.problem with
    | none => (.error .noProblem, ⟨none, none⟩)
    | some problem =>
      let (answer, next) := change problem
      (answer, ⟨some next, none⟩)

/-- Hands the staged problem to the backend. -/
def solve (backend : Backend) (tolerance : Binary64) : SolverStep Staging Status :=
  fun state =>
    match state.problem with
    | none => (.error .noProblem, state)
    | some problem =>
      match backend problem.boxed with
      | .optimal objectiveValue value =>
        let solution := problem.report tolerance objectiveValue value
        (.ok .optimal, { state with solution := some solution })
      | .infeasible => (.ok .infeasible, state)
      | .unbounded => (.ok .unbounded, state)
      | .failed => (.ok .numericalError, state)

/-- A part of the solution, if there is one. -/
def ask {α : Type} (part : StagedSolution → α) : SolverStep Staging α :=
  fun state =>
    match state.solution with
    | some solution => (.ok (part solution), state)
    | none => (.error .notSolved, state)

/-- The staging solver over a backend, under the backend's name. -/
def solver (name : String) (backend : Backend) (config : Configuration) : Solver Staging where
  name := name
  integerCapable := fun _ => true
  create := fun n => fun _ => (.ok (), ⟨some (.blank n), none⟩)
  setIntegers := fun indices => revise (StagedProblem.setIntegers indices)
  setLower := fun bounds => revise (StagedProblem.setLower bounds)
  setUpper := fun bounds => revise (StagedProblem.setUpper bounds)
  setObjective := fun coefficients => revise (StagedProblem.setObjective coefficients)
  setSense := fun sense => revise fun problem => (.ok (), { problem with sense := sense })
  appendRow := fun row => revise (StagedProblem.appendRow row)
  setScaling := fun scale => revise fun problem => (.ok (), { problem with scale := scale })
  solve := solve backend config.tolerance
  objectiveValue := ask StagedSolution.objectiveValue
  variableValues := ask StagedSolution.values
  release := fun _ => empty

end Staging

end LinearModel
