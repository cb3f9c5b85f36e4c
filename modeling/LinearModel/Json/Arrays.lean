import LinearModel.Dense
import LinearModel.Json.Value

/-!
# Arrays in JSON

An array of numbers is written as nested JSON arrays, one level for each axis. Reading one takes
three steps: the shape is that of the first elements alone (`Value.outline`), room is made for as
many numbers as that shape has, and the whole is then held against it (`Value.collect`), which finds
the first place in the order of the text where the two disagree. The room is asked for before
anything else of the value has been looked at, and so its size comes from the first elements too.
-/

namespace LinearModel.Json

/-- Why a value is no array of numbers. -/
inductive ArrayFault where
  /-- Arrays and numbers, but not in the form of a rectangle. -/
  | ragged
  /-- Something else than arrays and numbers. -/
  | notNumeric
  /-- Room for more numbers than an array can hold. Reading does not go on to look at them. -/
  | capacityOverflow
  deriving DecidableEq

namespace Value

/-! ## Reading -/

/-- The lengths of the arrays at the first elements, from the outside in. An empty array ends it.
-/
def outline : Value → Shape
  | array [] => [0]
  | array (first :: rest) => (rest.length + 1) :: outline first
  | _ => []

/-- The numbers in the order of the text, if the value has exactly this shape. -/
def collect : Shape → Value → Except ArrayFault (List Binary64)
  | [], number value => .ok [value]
  | [], array _ => .error .ragged
  | dim :: rest, array items =>
    if items.length = dim then (items.mapM (collect rest)).map List.flatten
    else .error .ragged
  | _ :: _, number _ => .error .ragged
  | _, _ => .error .notNumeric

/-- The numbers that a value gives: a number stands for every element, an array for itself. The room
for an array is counted as a word. -/
def dense : Value → Except ArrayFault Dense
  | number value => .ok (.uniform value)
  | array items =>
    let shape := outline (array items)
    if Shape.elementLimit < shape.wordSize then .error .capacityOverflow
    else
      match collect shape (array items) with
      | .error fault => .error fault
      | .ok entries =>
        match Tensor.ofEntries? shape entries with
        | some tensor => .ok (.explicit tensor)
        | none => .error .ragged
  | _ => .error .notNumeric

/-! ## Writing -/

/-- A number, or nothing where it is not finite. -/
def ofNumber (x : Binary64) : Value := if x.isFinite then number x else null

/-- Nested arrays of this shape. -/
def nest : Shape → List Binary64 → Value
  | [], entries => ofNumber (entries.headD .zero)
  | dim :: rest, entries =>
    array ((List.range dim).map fun i =>
      nest rest ((entries.drop (i * Shape.size rest)).take (Shape.size rest)))

def ofTensor (tensor : Tensor) : Value := nest tensor.shape tensor.entries

end Value

end LinearModel.Json
