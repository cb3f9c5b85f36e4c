import LinearModel.Layout.Basic
import LinearModel.Named

/-!
# Slices of a flat vector

A vector with one element for each variable and a family of arrays, one for each block, hold the
same information: `split` cuts the vector at the offsets, `join` puts the arrays behind one
another. Neither looks at the elements, so both go for elements of any type.
-/

namespace LinearModel.Layout

variable {α : Type}

/-- The elements of one block, as an array of its shape. -/
def slice (flat : List α) (block : Placed) : Except ModelError (String × Grid α) :=
  match Grid.ofEntries? block.shape ((flat.drop block.offset).take block.length) with
  | some grid => .ok (block.name, grid)
  | none => .error (.shapeMismatch block.name block.shape [block.length])

/-- One array for each block, in the order of placing. -/
def split (layout : Layout) (flat : List α) : Except ModelError (Named (Grid α)) :=
  if flat.length = layout.dimension then layout.blocks.mapM (slice flat)
  else .error (.lengthMismatch layout.dimension flat.length)

/-- The elements of one block out of a family of arrays. -/
def entriesOf (values : Named (Grid α)) (block : Placed) : Except ModelError (List α) :=
  match Named.get? values block.name with
  | none => .error (.unknownBlock block.name)
  | some grid =>
    if grid.shape = block.shape then .ok grid.entries
    else .error (.shapeMismatch block.name block.shape grid.shape)

/-- The arrays behind one another in the order of placing. Every block needs its array; arrays of
other names are passed over. -/
def join (layout : Layout) (values : Named (Grid α)) : Except ModelError (List α) := do
  return (← layout.blocks.mapM (entriesOf values)).flatten

end LinearModel.Layout
