import LinearModel.Exact.Simplex

/-!
# Branch and bound

A problem with variables that have to be whole is solved without that condition first. If a
variable comes out broken, the problem is split in two, one with the variable at least the whole
number above and one with it at most the number below. A branch that cannot beat the best point
so far is left.

## Which of equally good points

The problem is split at the variable that is farthest from a whole number, the upper branch is
looked at first, and a later point takes the place of an earlier one only if its sum is smaller.
So where the best sum belongs to points on both sides of a split, the upper side has the answer.

## Termination

Splitting makes the range of one variable smaller by at least one and leaves the others, so the
sum of the widths of the ranges bounds the depth.
-/

namespace LinearModel.Exact

/-- A point with its weighted sum. -/
structure Candidate where
  sum : Rat
  values : Array Rat

inductive IntegerOutcome where
  | optimal (best : Candidate)
  | infeasible
  | unbounded
  | exhausted

/-- A linear problem some of whose variables have to be whole. -/
structure IntegerProblem where
  relaxed : LinearProblem
  whole : List Nat

namespace IntegerProblem

def sum (problem : IntegerProblem) (values : Array Rat) : Rat :=
  (List.range values.size).foldl
    (fun sum j => sum + problem.relaxed.weights.getD j 0 * values.getD j 0) 0

/-- How far a number is from the nearest whole one. -/
def gap (value : Rat) : Rat :=
  let below := value - value.floor
  let above := value.ceil - value
  if below ≤ above then below else above

/-- Of the variables that should be whole and are not, the one with the widest gap; the first of
equals. -/
def broken? (problem : IntegerProblem) (values : Array Rat) : Option Nat :=
  (problem.whole.foldl (fun widest j =>
    let width := gap (values.getD j 0)
    if widest.elim 0 Prod.snd < width then some (j, width) else widest) none).map Prod.fst

/-- The problem with other bounds for one variable. -/
def restrict (problem : IntegerProblem) (j : Nat) (change : Bounds → Bounds) : IntegerProblem :=
  { problem with
    relaxed := { problem.relaxed with bounds := problem.relaxed.bounds.modify j change } }

/-- The sum of the widths of the ranges of the whole variables. -/
def width (problem : IntegerProblem) : Nat :=
  problem.whole.foldl (fun sum j =>
    match problem.relaxed.bounds.getD j default with
    | ⟨some lower, some upper⟩ => sum + (upper - lower).ceil.toNat
    | _ => sum) 0

/-- The best point of this branch and `best`; nothing where a branch could not be finished. -/
def explore : Nat → IntegerProblem → Option Candidate → Option (Option Candidate)
  | 0, _, _ => none
  | fuel + 1, problem, best =>
    match problem.relaxed.solve with
    | .infeasible => some best
    | .unbounded | .exhausted => none
    | .optimal values =>
      let sum := problem.sum values
      if best.any fun held => held.sum ≤ sum then some best
      else
        match problem.broken? values with
        | none => some (some ⟨sum, values⟩)
        | some j =>
          let below : Rat := (values.getD j 0).floor
          let highBranch :=
            problem.restrict j fun bounds => { bounds with lower := some (below + 1) }
          let lowBranch := problem.restrict j fun bounds => { bounds with upper := some below }
          match explore fuel highBranch best with
          | none => none
          | some found => explore fuel lowBranch found

/-- Solves the problem. Where the sum has no least value without the condition, it counts as
having none with it. -/
def solve (problem : IntegerProblem) : IntegerOutcome :=
  match problem.relaxed.solve with
  | .infeasible => .infeasible
  | .unbounded => .unbounded
  | .exhausted => .exhausted
  | .optimal _ =>
    match explore (problem.width + 1) problem none with
    | none => .exhausted
    | some none => .infeasible
    | some (some best) => .optimal best

end IntegerProblem

end LinearModel.Exact
