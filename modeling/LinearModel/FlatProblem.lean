import LinearModel.Objective
import LinearModel.Row

/-!
# Flat problems

What a solver is given: no blocks and no names, only vectors with one number for each variable, a
matrix with one row for each relation, and the flat indices of the integer variables. The parts
come from outside as they are, so their lengths may disagree; `rows` then ends with the shortest.
-/

namespace LinearModel

/-- Rows of numbers of one common length. -/
structure Matrix where
  width : Nat
  rows : List (List Binary64)
  length_rows : ∀ row ∈ rows, row.length = width
  deriving DecidableEq

namespace Matrix

def height (matrix : Matrix) : Nat := matrix.rows.length

/-- The matrix whose element in row `i` and column `j` is the `j`-th number of the `i`-th list,
and zero where a list is too short. -/
def ofRows (width : Nat) (rows : List (List Binary64)) : Matrix where
  width := width
  rows := rows.map fun row => (List.range width).map fun j => row.getD j .zero
  length_rows := by
    intro row h
    obtain ⟨_, _, rfl⟩ := List.mem_map.mp h
    simp

end Matrix

/-- A problem as a solver is given it. -/
structure FlatProblem where
  objective : List Binary64
  matrix : Matrix
  relations : List Relation
  rhs : List Binary64
  lower : List Binary64
  upper : List Binary64
  /-- The flat indices of the variables that have to be whole. -/
  integers : List Nat
  sense : Sense
  /-- Whether the solution is to be moved onto whole numbers that are near. -/
  scale : Bool
  deriving DecidableEq

namespace FlatProblem

def variableCount (problem : FlatProblem) : Nat := problem.objective.length

def rowCount (problem : FlatProblem) : Nat := problem.matrix.height

/-- The coefficients of one row of the matrix. -/
def row? (problem : FlatProblem) (i : Nat) : Option (List Binary64) := problem.matrix.rows[i]?

/-- Coefficients, relation and right-hand side of each row, as far as there are all three. -/
def rows (problem : FlatProblem) : List Row :=
  List.zipWith (fun coefficients side => ⟨coefficients, side.1, side.2⟩) problem.matrix.rows
    (problem.relations.zip problem.rhs)

end FlatProblem

end LinearModel
