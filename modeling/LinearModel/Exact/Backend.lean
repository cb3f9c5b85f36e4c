import LinearModel.Backend
import LinearModel.Exact.BranchAndBound

/-!
# The exact backend

The backend of this library computes over the rationals: every finite number stands for the
rational that it denotes, and only the answer is rounded, once for each value. An infinite bound
or right-hand side is none, or one that nothing can keep; a weight has to be finite. Not-a-number
cannot be computed with.
-/

namespace LinearModel.Exact

/-- Why a problem is not computed. -/
inductive Refusal where
  | infeasible
  | notComputable

/-- A number as a lower bound. -/
def lowerBound : Binary64 → Except Refusal (Option Rat)
  | .nan => .error .notComputable
  | .infinity true => .ok none
  | .infinity false => .error .infeasible
  | .negZero => .ok (some 0)
  | .real v _ => .ok (some v)

/-- A number as an upper bound. -/
def upperBound : Binary64 → Except Refusal (Option Rat)
  | .nan => .error .notComputable
  | .infinity false => .ok none
  | .infinity true => .error .infeasible
  | .negZero => .ok (some 0)
  | .real v _ => .ok (some v)

/-- A number as a weight. -/
def finiteWeight (x : Binary64) : Except Refusal Rat :=
  match x.toRat? with
  | some v => .ok v
  | none => .error .notComputable

/-- The bounds of a variable of this range. -/
def rangeBounds : Range → Except Refusal Bounds
  | .integers lower upper => .ok ⟨some lower, some upper⟩
  | .interval lower upper => do return ⟨← lowerBound lower, ← upperBound upper⟩

/-- The bounds of a sum in this relation to a number. -/
def activityBounds (relation : Relation) (rhs : Binary64) : Except Refusal Bounds :=
  match relation with
  | .le => do return ⟨none, ← upperBound rhs⟩
  | .ge => do return ⟨← lowerBound rhs, none⟩
  | .eq =>
    match rhs with
    | .infinity _ => .error .infeasible
    | _ => do return ⟨← lowerBound rhs, ← upperBound rhs⟩

def exactRow (row : SparseRow) : Except Refusal (List (Nat × Rat) × Bounds) := do
  let terms ← row.terms.mapM fun term => do return (term.1, ← finiteWeight term.2)
  return (terms, ← activityBounds row.relation row.rhs)

/-- The problem over the rationals, with the weights turned so that their sum is to become small.
-/
def exactProblem (problem : BoxedProblem) : Except Refusal IntegerProblem := do
  let weights ← problem.columns.mapM fun column => finiteWeight column.cost
  let bounds ← problem.columns.mapM fun column => rangeBounds column.range
  let rows ← problem.rows.mapM exactRow
  let turned := if problem.sense = .maximize then weights.map fun weight => -weight else weights
  return {
    relaxed := { weights := turned.toArray, bounds := bounds.toArray, rows := rows }
    whole := (problem.columns.zipIdx.filter fun column => column.1.range.isWhole).map
      Prod.snd }

/-- Solves a problem over the rationals. -/
def backend : Backend := fun problem =>
  match exactProblem problem with
  | .error .infeasible => .infeasible
  | .error .notComputable => .failed
  | .ok exact =>
    match exact.solve with
    | .infeasible => .infeasible
    | .unbounded => .unbounded
    | .exhausted => .failed
    | .optimal best =>
      .optimal (.ofRat (if problem.sense = .maximize then -best.sum else best.sum))
        fun j => .ofRat (best.values.getD j 0)

end LinearModel.Exact
