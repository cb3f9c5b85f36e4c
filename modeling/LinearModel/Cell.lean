import LinearModel.Shape

/-!
# Cells

How a single element of a block is addressed: by its row-major number or by one index for each
axis.
-/

namespace LinearModel

inductive Cell where
  | flat (number : Nat)
  | multi (index : List Nat)
  deriving DecidableEq, Repr

namespace Cell

/-- The first element. -/
def first : Cell := .flat 0

/-- The index vector of the cell, if it lies in the shape. -/
def locate? (shape : Shape) : Cell → Option (List Nat)
  | flat number => if number < shape.wordSize then some (shape.unravel number) else none
  | multi index => if shape.inRange index then some index else none

/-- The indices as they were given. -/
def toList : Cell → List Nat
  | flat number => [number]
  | multi index => index

end Cell

end LinearModel
