import LinearModel.Cell
import LinearModel.Dense
import LinearModel.Layout.Basic
import LinearModel.Named
import LinearModel.Tensor.Edit

/-!
# The draft of a row

A row is written block by block before it is flattened: the draft holds one array of coefficients
for each block of a layout, in the order of the layout. Writing changes the array of one block and
leaves names, order and shapes alone; a write that fails changes nothing.
-/

namespace LinearModel

/-- One array of coefficients for each block. -/
structure Draft where
  arrays : Named Tensor
  deriving DecidableEq

namespace Draft

/-- All coefficients zero. -/
def blank (layout : Layout) : Draft :=
  ⟨layout.blocks.map fun block => (block.name, .zeros block.shape)⟩

def array (draft : Draft) (name : String) : Except ModelError Tensor :=
  match Named.get? draft.arrays name with
  | some tensor => .ok tensor
  | none => .error (.unknownBlock name)

/-- The draft with the array of one block replaced by what `write` makes of it. -/
def change (draft : Draft) (name : String) (write : Tensor → Except ModelError Tensor) :
    Except ModelError Draft := do
  let next ← write (← draft.array name)
  return ⟨Named.insert draft.arrays name next⟩

/-! ## Writing -/

/-- One coefficient. -/
def writeCell (draft : Draft) (name : String) (cell : Cell) (value : Binary64) :
    Except ModelError Draft :=
  draft.change name fun tensor =>
    match cell.locate? tensor.shape with
    | some index => .ok (tensor.set index value)
    | none => .error (.indexOutOfRange name cell.toList tensor.shape)

/-- All coefficients of a block. -/
def writeAll (draft : Draft) (name : String) (values : Dense) : Except ModelError Draft :=
  draft.change name fun tensor => values.resolve name tensor.shape

/-- An edit of the coefficients of a block as they stand. -/
def writeEdit (draft : Draft) (name : String) (edit : Edit) : Except ModelError Draft :=
  draft.change name fun tensor => .ok (edit.apply tensor)

/-! ## Erasing -/

/-- The coefficients of one block become zero. -/
def erase (draft : Draft) (name : String) : Except ModelError Draft :=
  draft.change name fun tensor => .ok (.zeros tensor.shape)

/-- All coefficients become zero. -/
def eraseAll (draft : Draft) : Draft :=
  ⟨draft.arrays.map fun entry => (entry.1, .zeros entry.2.shape)⟩

def isBlank (draft : Draft) : Bool :=
  draft.arrays.all fun entry => entry.2.entries.all Binary64.isZero

/-! ## The flat row -/

/-- The coefficients of all blocks behind one another, with infinities replaced by `bigM`. -/
def flatten (draft : Draft) (bigM : Binary64) : List Binary64 :=
  draft.arrays.flatMap fun entry => entry.2.entries.map (·.capInfinity bigM)

end Draft

end LinearModel
