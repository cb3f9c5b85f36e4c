import LinearModel.Document.Basic
import LinearModel.Document.Error
import LinearModel.Json.Arrays

/-!
# Programs from documents

A document is built in its order: all blocks are declared and then placed, the rows are added one
by one, and the objective comes last. Within a row its relation is read first, then it must not
have both coefficients and arrays, then its arrays are converted, and only then is it added. The
first fault ends the building, and so does a value for whose numbers there can be no room.
-/

namespace LinearModel

namespace Document

/-! ## Conversion -/

/-- The numbers given for a name. -/
def dense (name : String) (value : Json.Value) : Except DocumentStop Dense :=
  match value.dense with
  | .ok values => .ok values
  | .error .ragged => .error (.failed (.ragged name))
  | .error .notNumeric => .error (.failed (.notNumeric name))
  | .error .capacityOverflow => .error .capacityOverflow

def arrays (entries : Named Json.Value) : Except DocumentStop (List (String × Dense)) :=
  entries.mapM fun entry => do return (entry.1, ← dense entry.1 entry.2)

def block (config : Configuration) (name : String) (entry : BlockEntry) :
    Except DocumentStop (String × Block) := do
  let lower ← entry.lower.mapM (dense name)
  let upper ← entry.upper.mapM (dense name)
  return (name, .declare config entry.shape lower upper entry.kind)

/-- The outcome of a step on a program, where nothing goes on after an error. -/
def orStop {α : Type} : Except ModelError Unit × α → Except DocumentStop α
  | (.ok (), next) => .ok next
  | (.error error, _) => .error (.model error)

/-! ## Rows and objective -/

def addRow (config : Configuration) (position : Nat) (entry : RowEntry) (program : Program) :
    Except DocumentStop Program := do
  let relation ← (Relation.ofText entry.relation).mapError .model
  if !entry.items.isEmpty && !entry.arrays.isEmpty then throw (.failed (.mixedRow position))
  if entry.arrays.isEmpty then
    orStop (program.addItems config entry.items entry.rhs relation)
  else
    orStop (program.addArrays config (← arrays entry.arrays) entry.rhs relation)

/-- The rows in order, counted from `position`. -/
def addRows (config : Configuration) : Nat → List RowEntry → Program → Except DocumentStop Program
  | _, [], program => .ok program
  | position, entry :: rest, program => do
    addRows config (position + 1) rest (← addRow config position entry program)

def setObjective (config : Configuration) (entry : Option ObjectiveEntry) (program : Program) :
    Except DocumentStop Program :=
  match entry with
  | none => .ok program
  | some entry => do
    orStop (program.setObjective config (← arrays entry.arrays) entry.sense)

/-! ## The program -/

/-- The program that a document describes. -/
def build (config : Configuration) (document : Document) : Except DocumentStop Program := do
  let blocks ← document.blocks.mapM fun entry => block config entry.1 entry.2
  let program ← (Program.ofBlocks blocks).mapError .model
  setObjective config document.objective (← addRows config 0 document.rows program)

end Document

namespace Program

/-- The program of a JSON text. -/
def ofJson (config : Configuration) (text : String) : Except DocumentStop Program :=
  match Document.ofText? text with
  | none => .error (.failed .unparsable)
  | some document => document.build config

/-- The program of the bytes that `read` gives, which have to be UTF-8. -/
def readJson {m : Type → Type} [Monad m] (config : Configuration) (read : m (Option ByteArray)) :
    m (Except DocumentStop Program) := do
  match (← read).bind String.fromUTF8? with
  | none => return .error (.failed .unreadable)
  | some text => return ofJson config text

end Program

end LinearModel
