import LinearModel.Named
import LinearModel.Status
import LinearModel.Tensor.Basic

/-!
# Solutions
-/

namespace LinearModel

/-- The optimum of a program: the values of its variables as one array for each block, in the
order of the layout. -/
structure Solution where
  status : Status
  objectiveValue : Binary64
  values : Named Tensor
  deriving DecidableEq

/-- The values of one block. -/
def Solution.block? (solution : Solution) (name : String) : Option Tensor :=
  Named.get? solution.values name

end LinearModel
