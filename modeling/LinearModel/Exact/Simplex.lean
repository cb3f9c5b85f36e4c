import LinearModel.Exact.Tableau

/-!
# The simplex method over the rationals

A linear problem is solved in two phases on one tableau, with the activity of each row as one more
variable. `repair` makes the basic variables keep their bounds, one after the other; `improve`
then moves the sum down as long as some column allows it. Both choose the variable of the least
number wherever there is a choice, so no arrangement of the variables comes up twice.

## Termination

The number of arrangements bounds the steps: a variable is basic, or not basic and then at one of
its bounds or where it started. Four to the number of variables is more than there are
arrangements, and that is the fuel of each phase; running out of it is an answer of its own
(`exhausted`).
-/

namespace LinearModel.Exact

/-- A linear problem: a weight and bounds for each variable, and for each row the weights of some
variables and the bounds of their sum. The weighted sum of the variables is to become small. -/
structure LinearProblem where
  weights : Array Rat
  bounds : Array Bounds
  rows : List (List (Nat × Rat) × Bounds)

inductive LinearOutcome where
  | optimal (values : Array Rat)
  | infeasible
  | unbounded
  | exhausted

namespace Tableau

/-! ## The first phase -/

/-- The first basic variable, by number, that breaks its bounds. -/
def broken? (t : Tableau) : Option Nat :=
  least (List.range t.basic.size) fun r =>
    let v := t.basicAt r
    let bounds := t.boundsOf v
    if bounds.isBelow (t.value v) || bounds.isAbove (t.value v) then some v else none

/-- The first column, by the number of its variable, that can bring row `r` up or down. -/
def helper? (t : Tableau) (r : Nat) (up : Bool) : Option Nat :=
  least (List.range t.free.size) fun c =>
    let v := t.freeAt c
    let weight := if up then t.weight r c else -t.weight r c
    if 0 < weight && (t.boundsOf v).canRise (t.value v)
      || weight < 0 && (t.boundsOf v).canFall (t.value v) then some v else none

/-- Keeps all bounds, or finds that it cannot be done. -/
def repair : Nat → Tableau → Option (Option Tableau)
  | 0, _ => none
  | fuel + 1, t =>
    match t.broken? with
    | none => some (some t)
    | some r =>
      let v := t.basicAt r
      let bounds := t.boundsOf v
      let up := bounds.isBelow (t.value v)
      let target := (if up then bounds.lower else bounds.upper).getD 0
      match t.helper? r up with
      | none => some none
      | some c =>
        repair fuel ((t.move c ((target - t.value v) / t.weight r c)).exchange r c)

/-! ## The second phase -/

/-- The first column, by the number of its variable, along which the sum goes down, with the
direction in which the variable then moves. -/
def descent? (t : Tableau) : Option (Nat × Rat) :=
  (least (List.range t.free.size) fun c =>
    let v := t.freeAt c
    if t.costAt c < 0 && (t.boundsOf v).canRise (t.value v)
      || 0 < t.costAt c && (t.boundsOf v).canFall (t.value v) then some v else none).map
    fun c => (c, if t.costAt c < 0 then 1 else -1)

/-- How far a variable can go when it changes at this rate. -/
def room? (t : Tableau) (v : Nat) (rate : Rat) : Option Rat :=
  let bounds := t.boundsOf v
  if 0 < rate then bounds.upper.map fun upper => (upper - t.value v) / rate
  else if rate < 0 then bounds.lower.map fun lower => (lower - t.value v) / rate
  else none

/-- What stops a column: the column's own bound or a row. -/
structure Stop where
  distance : Rat
  blocker : Nat
  row : Option Nat

/-- Of two stops the nearer one, and of equally near ones that of the smaller variable. -/
def Stop.nearer (a b : Stop) : Stop :=
  if b.distance < a.distance || b.distance = a.distance && b.blocker < a.blocker then b else a

/-- What stops column `c` first when its variable moves in `direction`. -/
def stop? (t : Tableau) (c : Nat) (direction : Rat) : Option Stop :=
  let own := (t.room? (t.freeAt c) direction).map fun d => (⟨d, t.freeAt c, none⟩ : Stop)
  (List.range t.basic.size).foldl (fun best r =>
    match t.room? (t.basicAt r) (t.weight r c * direction) with
    | none => best
    | some d =>
      let stop : Stop := ⟨d, t.basicAt r, some r⟩
      some (match best with
        | none => stop
        | some held => held.nearer stop)) own

/-- Brings the sum down as far as it goes. -/
def improve : Nat → Tableau → LinearOutcome
  | 0, _ => .exhausted
  | fuel + 1, t =>
    match t.descent? with
    | none => .optimal t.values
    | some (c, direction) =>
      match t.stop? c direction with
      | none => .unbounded
      | some stop =>
        let moved := t.move c (stop.distance * direction)
        match stop.row with
        | none => improve fuel moved
        | some r => improve fuel (moved.exchange r c)

end Tableau

namespace LinearProblem

/-- The weights of a row by column; a variable that comes twice counts with the sum. -/
def denseRow (width : Nat) (terms : List (Nat × Rat)) : Array Rat :=
  terms.foldl (fun row term => row.modify term.1 (· + term.2)) (Array.replicate width 0)

/-- The tableau in which the activities of the rows are basic. -/
def tableau (problem : LinearProblem) : Tableau :=
  let n := problem.weights.size
  let rows := (problem.rows.map fun row => denseRow n row.1).toArray
  let start := problem.bounds.mapIdx fun j bounds => bounds.start (problem.weights.getD j 0)
  let activity (row : Array Rat) : Rat :=
    (List.range n).foldl (fun sum j => sum + row.getD j 0 * start.getD j 0) 0
  { bounds := problem.bounds ++ (problem.rows.map Prod.snd).toArray
    values := start ++ rows.map activity
    basic := Array.range' n rows.size
    free := Array.range n
    rows := rows
    cost := problem.weights }

/-- Solves the problem. -/
def solve (problem : LinearProblem) : LinearOutcome :=
  if problem.bounds.any Bounds.isEmpty then .infeasible
  else
    let fuel := Nat.pow 4 (problem.weights.size + problem.rows.length)
    match problem.tableau.repair fuel with
    | none => .exhausted
    | some none => .infeasible
    | some (some t) =>
      match t.improve fuel with
      | .optimal values => .optimal (values.extract 0 problem.weights.size)
      | other => other

end LinearProblem

end LinearModel.Exact
