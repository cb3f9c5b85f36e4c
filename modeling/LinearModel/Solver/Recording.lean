import LinearModel.Solver.Basic

/-!
# Recorded calls

Any solver can be made to record what is asked of it. A recording solver does what the solver
inside does, and notes each call before it is made, failing ones included. Whether integer
variables are possible is not noted.
-/

namespace LinearModel

/-- A call of a solver with its argument. -/
inductive SolverCall where
  | create (variableCount : Nat)
  | setIntegers (indices : List Nat)
  | setLower (bounds : List Binary64)
  | setUpper (bounds : List Binary64)
  | setObjective (coefficients : List Binary64)
  | setSense (sense : Sense)
  | appendRow (row : Row)
  | setScaling (scale : Bool)
  | solve
  | objectiveValue
  | variableValues
  | release
  deriving DecidableEq

/-- The calls of a solver so far, oldest first, beside its state. -/
structure Recorded (σ : Type) where
  state : σ
  calls : List SolverCall

namespace Recorded

variable {σ α : Type}

/-- Notes a call and then takes the step inside. -/
def note (call : SolverCall) (step : SolverStep σ α) : SolverStep (Recorded σ) α :=
  fun recorded =>
    let (answer, next) := step recorded.state
    (answer, ⟨next, recorded.calls ++ [call]⟩)

end Recorded

/-- The solver with its calls recorded. -/
def Solver.recording {σ : Type} (solver : Solver σ) : Solver (Recorded σ) where
  name := solver.name
  integerCapable := fun recorded => solver.integerCapable recorded.state
  create := fun n => Recorded.note (.create n) (solver.create n)
  setIntegers := fun indices => Recorded.note (.setIntegers indices) (solver.setIntegers indices)
  setLower := fun bounds => Recorded.note (.setLower bounds) (solver.setLower bounds)
  setUpper := fun bounds => Recorded.note (.setUpper bounds) (solver.setUpper bounds)
  setObjective := fun coefficients =>
    Recorded.note (.setObjective coefficients) (solver.setObjective coefficients)
  setSense := fun sense => Recorded.note (.setSense sense) (solver.setSense sense)
  appendRow := fun row => Recorded.note (.appendRow row) (solver.appendRow row)
  setScaling := fun scale => Recorded.note (.setScaling scale) (solver.setScaling scale)
  solve := Recorded.note .solve solver.solve
  objectiveValue := Recorded.note .objectiveValue solver.objectiveValue
  variableValues := Recorded.note .variableValues solver.variableValues
  release := fun recorded => ⟨solver.release recorded.state, recorded.calls ++ [.release]⟩

end LinearModel
