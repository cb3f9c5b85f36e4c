import LinearModel.Configuration
import LinearModel.Dense

/-!
# Blocks of decision variables

A block is declared by a shape, two bounds and the kind of its variables. It gets its name and its
place among the variables of a program when it is put into a layout.
-/

namespace LinearModel

inductive VariableKind where
  | continuous
  | integer
  deriving DecidableEq, Repr

def VariableKind.text : VariableKind → String
  | continuous => "CONTINUOUS"
  | integer => "INTEGER"

/-- A declared group of variables of one kind. -/
structure Block where
  shape : Shape
  lower : Dense
  upper : Dense
  kind : VariableKind
  deriving DecidableEq

namespace Block

/-- A block from what was given for it: one variable unless there is a shape, and the bounds that
are configured at this moment where none is given. -/
def declare (config : Configuration) (shape : Option Shape) (lower upper : Option Dense)
    (kind : VariableKind) : Block where
  shape := shape.getD [1]
  lower := lower.getD (.uniform config.lower)
  upper := upper.getD (.uniform config.upper)
  kind := kind

/-- Continuous variables of a shape with the configured bounds. -/
def ofShape (config : Configuration) (shape : Shape) : Block :=
  declare config (some shape) none none .continuous

/-- One continuous variable with the configured bounds. -/
def scalar (config : Configuration) : Block := ofShape config [1]

end Block

end LinearModel
