import LinearModel.Binary64.Basic

/-!
# Configuration

The defaults that building and solving a program read. They are passed to each operation as a
value, so which moment reads which default is visible in the types: bounds are read when a block
is built, the stand-in for infinity when a row, an objective or a flat problem is made, and the
tolerance when a solver runs.
-/

namespace LinearModel

structure Configuration where
  /-- The stand-in for infinity in coefficients and bounds that are handed to a solver. -/
  bigM : Binary64 := .ofNat 100000
  /-- The lower bound of a block that gives none. -/
  lower : Binary64 := .zero
  /-- The upper bound of a block that gives none. -/
  upper : Binary64 := .infinity false
  /-- How near to a whole number a solution value is moved onto it. -/
  tolerance : Binary64 := .ofRat (1 / 1000000)

/-- The number with an infinity replaced by the stand-in of its sign. -/
def Binary64.capInfinity (x bigM : Binary64) : Binary64 :=
  match x with
  | .infinity negative => if negative then -bigM else bigM
  | _ => x

end LinearModel
