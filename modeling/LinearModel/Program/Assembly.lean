import LinearModel.FlatProblem
import LinearModel.Program.Basic

/-!
# The flat problem of a program
-/

namespace LinearModel

/-- The rows of a program in the form that a solver takes, without objective and bounds. -/
structure ConstraintSystem where
  matrix : Matrix
  relations : List Relation
  rhs : List Binary64
  integers : List Nat
  deriving DecidableEq

namespace Program

def constraintSystem (program : Program) : ConstraintSystem where
  matrix := .ofRows program.layout.dimension (program.rows.map Row.coefficients)
  relations := program.rows.map Row.relation
  rhs := program.rows.map Row.rhs
  integers := program.layout.integerIndices

/-- All that a solver needs; bounds have their infinities replaced by the stand-in that is
configured at this moment. -/
def flatProblem (config : Configuration) (scale : Bool) (program : Program) :
    Except ModelError FlatProblem :=
  match program.objective with
  | none => .error .noObjective
  | some objective =>
    let system := program.constraintSystem
    .ok
      { objective := objective.coefficients
        matrix := system.matrix
        relations := system.relations
        rhs := system.rhs
        lower := program.layout.lowerBounds config.bigM
        upper := program.layout.upperBounds config.bigM
        integers := system.integers
        sense := objective.sense
        scale := scale }

end Program

end LinearModel
