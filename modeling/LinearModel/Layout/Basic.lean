import LinearModel.Block

/-!
# The flat layout of blocks

A layout puts named blocks one behind the other into a single row of variables. The order of
placing decides the offsets and never changes: a block that has been placed keeps its offset.

`place` refuses a block for one cause at a time, in this order: its name, its axes, a dimension of
zero, its element count, the count of all variables, its lower bound, its upper bound.
-/

namespace LinearModel

/-- A block in its place: both bounds are arrays of its shape, and its variables are those from
`offset` on. -/
structure Placed where
  name : String
  shape : Shape
  lower : Tensor
  upper : Tensor
  kind : VariableKind
  offset : Nat
  deriving DecidableEq

/-- The number of variables of the block. -/
def Placed.length (block : Placed) : Nat := block.shape.size

/-- Placed blocks in the order of placing, and the number of variables of them all. -/
structure Layout where
  blocks : List Placed
  dimension : Nat
  deriving DecidableEq

namespace Layout

def empty : Layout := ⟨[], 0⟩

instance : Inhabited Layout := ⟨empty⟩

def names (layout : Layout) : List String := layout.blocks.map Placed.name

/-! ## Looking up -/

def find? (layout : Layout) (name : String) : Option Placed :=
  layout.blocks.find? fun block => block.name = name

def contains (layout : Layout) (name : String) : Bool := (layout.find? name).isSome

def block (layout : Layout) (name : String) : Except ModelError Placed :=
  match layout.find? name with
  | some block => .ok block
  | none => .error (.unknownBlock name)

/-! ## Placing -/

/-- The array of a bound, which has to have the shape of the block. -/
def fitBound (shape : Shape) (bound : Dense) : Except BlockFault Tensor :=
  match bound.fit shape with
  | .ok tensor => .ok tensor
  | .error found => .error (.boundShape found shape)

/-- The layout with one more block at its end, or the cause for which the block is refused. -/
def place? (layout : Layout) (name : String) (block : Block) : Except BlockFault Layout :=
  if layout.contains name then .error .duplicateName
  else if block.shape = [] then .error .noDimensions
  else if 0 ∈ block.shape then .error (.zeroDimension block.shape)
  else
    match block.shape.checkedSize with
    | none => .error (.tooManyElements block.shape)
    | some length =>
      match Shape.checkedSize [layout.dimension + length] with
      | none => .error .dimensionTooLarge
      | some dimension => do
        let lower ← fitBound block.shape block.lower
        let upper ← fitBound block.shape block.upper
        .ok
          { blocks := layout.blocks ++
              [⟨name, block.shape, lower, upper, block.kind, layout.dimension⟩]
            dimension := dimension }

def place (layout : Layout) (name : String) (block : Block) : Except ModelError Layout :=
  match layout.place? name block with
  | .ok next => .ok next
  | .error fault => .error (.invalidBlock name fault)

/-- The blocks placed in order; the first that is refused decides. -/
def ofBlocks (blocks : List (String × Block)) : Except ModelError Layout :=
  blocks.foldlM (fun layout entry => layout.place entry.1 entry.2) empty

/-! ## What a solver needs to know of the variables -/

/-- The flat indices of the integer variables, ascending. -/
def integerIndices (layout : Layout) : List Nat :=
  (layout.blocks.filter fun block => block.kind = .integer).flatMap fun block =>
    List.range' block.offset block.length

/-- For each variable, whether it is an integer. -/
def integerFlags (layout : Layout) : List Bool :=
  layout.blocks.flatMap fun block => List.replicate block.length (block.kind = .integer)

/-- The lower bounds of all variables, with infinities replaced by the stand-in `bigM`. -/
def lowerBounds (layout : Layout) (bigM : Binary64) : List Binary64 :=
  layout.blocks.flatMap fun block => block.lower.entries.map (·.capInfinity bigM)

/-- The upper bounds of all variables, with infinities replaced by the stand-in `bigM`. -/
def upperBounds (layout : Layout) (bigM : Binary64) : List Binary64 :=
  layout.blocks.flatMap fun block => block.upper.entries.map (·.capInfinity bigM)

end Layout

end LinearModel
