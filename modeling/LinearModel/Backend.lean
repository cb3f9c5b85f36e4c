import LinearModel.Objective
import LinearModel.Row

/-!
# Backends

A backend is a function: it takes a problem whole, with a range for each variable, and answers
with an outcome. Nothing is assumed of it here. An optimum is a valuation, which gives a value for
any flat index.
-/

namespace LinearModel

/-- The values that a variable may take. -/
inductive Range where
  | interval (lower upper : Binary64)
  /-- Whole numbers between two whole numbers, both included. -/
  | integers (lower upper : Int)
  deriving DecidableEq

def Range.isWhole : Range → Bool
  | integers _ _ => true
  | interval _ _ => false

/-- A variable by its weight in the objective and its range. -/
structure Column where
  cost : Binary64
  range : Range
  deriving DecidableEq

/-- A row by the terms that are written down, each with the flat index of its variable. -/
structure SparseRow where
  terms : List (Nat × Binary64)
  relation : Relation
  rhs : Binary64
  deriving DecidableEq

structure BoxedProblem where
  sense : Sense
  columns : List Column
  rows : List SparseRow
  deriving DecidableEq

/-- What a backend answers. -/
inductive Outcome where
  | optimal (objectiveValue : Binary64) (value : Nat → Binary64)
  | infeasible
  | unbounded
  /-- The backend could not tell. -/
  | failed

abbrev Backend : Type := BoxedProblem → Outcome

end LinearModel
