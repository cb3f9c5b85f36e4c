/-!
# Statuses of an optimization
-/

namespace LinearModel

/-- How far a problem has been optimized. -/
inductive Status where
  | unoptimized
  | optimal
  | unbounded
  | infeasible
  /-- The solver lost its way in rounding. -/
  | numericalError
  deriving DecidableEq, Repr

def Status.text : Status → String
  | unoptimized => "UNOPTIMIZED"
  | optimal => "OPTIMAL"
  | unbounded => "UNBOUNDED"
  | infeasible => "INFEASIBLE"
  | numericalError => "NUMERICAL_ERROR"

end LinearModel
