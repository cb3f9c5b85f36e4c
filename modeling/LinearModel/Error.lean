import LinearModel.Shape
import LinearModel.Status
import LinearModel.Text.Bracketed

/-!
# Errors

What can go wrong, by cause. The wording of each cause stands in one `message` function; messages
call a block of variables a notation.
-/

namespace LinearModel

open Text (bracketed)

/-- What a solver reports. -/
inductive SolverError where
  /-- Something was asked of a problem before one was created. -/
  | noProblem
  /-- Values were asked for without a solved problem. -/
  | notSolved
  /-- A list with one value for each variable has the wrong length. -/
  | dimensionMismatch (expected found : Nat)
  /-- Integer variables were asked of a solver that knows only continuous ones. -/
  | integersUnsupported
  | unavailable (solver : String)
  /-- A failure of the solver's own. -/
  | backend (text : String)
  deriving DecidableEq

def SolverError.message : SolverError → String
  | noProblem => "No problem has been created in the solver"
  | notSolved => "The problem has not been solved"
  | dimensionMismatch expected found => s!"Expected {expected} values, got {found}"
  | integersUnsupported => "Solver doesn't support integer variables"
  | unavailable solver => s!"Solver {solver} is not available"
  | backend text => s!"Solver backend error: {text}"

/-- Why a block of variables cannot be placed. -/
inductive BlockFault where
  | duplicateName
  | noDimensions
  | zeroDimension (shape : Shape)
  | tooManyElements (shape : Shape)
  /-- The block is fine by itself, but all blocks together are too many variables. -/
  | dimensionTooLarge
  /-- A bound is an array of another shape than the block. -/
  | boundShape (found expected : Shape)
  deriving DecidableEq

def BlockFault.reason : BlockFault → String
  | duplicateName => "a notation with this name already exists"
  | noDimensions => "shape must have at least one dimension"
  | zeroDimension shape => s!"shape {bracketed shape} has a non-positive dimension"
  | tooManyElements shape => s!"shape {bracketed shape} has too many elements"
  | dimensionTooLarge => "flat dimension of the model is too large"
  | boundShape found expected =>
    s!"bound of shape {bracketed found} does not match shape {bracketed expected}"

/-- What goes wrong while a program is declared, authored or solved. -/
inductive ModelError where
  | invalidBlock (name : String) (fault : BlockFault)
  | unknownBlock (name : String)
  /-- The index is the one given: a row-major number counts as a list of one. -/
  | indexOutOfRange (name : String) (index : List Nat) (shape : Shape)
  | shapeMismatch (name : String) (expected found : Shape)
  | unknownRelation (text : String)
  /-- A flat vector is not as long as the program has variables. -/
  | lengthMismatch (expected found : Nat)
  | noObjective
  /-- The solver finished, but not with an optimum. -/
  | notOptimal (status : Status)
  | solver (error : SolverError)
  deriving DecidableEq

def ModelError.message : ModelError → String
  | invalidBlock name fault => s!"Invalid notation `{name}`: {fault.reason}"
  | unknownBlock name => s!"Tried to access notation `{name}` which is not in the model"
  | indexOutOfRange name index shape =>
    s!"Index {bracketed index} is out of range for notation `{name}` with shape {bracketed shape}"
  | shapeMismatch name expected found =>
    s!"Coefficients for notation `{name}` have shape {bracketed found}, "
      ++ s!"expected {bracketed expected}"
  | unknownRelation text =>
    s!"Unknown constraint relation `{text}`, expected one of =, <=, >="
  | lengthMismatch expected found =>
    s!"Flat vector has length {found}, the model's flat dimension is {expected}"
  | noObjective => "Tried to solve a model without an objective"
  | notOptimal status => s!"Solver finished with status {status.text}"
  | solver error => error.message

end LinearModel
