import LinearModel.Program.Basic

/-!
# Writing rows and the objective

A row is written in one of three ways: coefficient by coefficient, by whole arrays, or by edits of
what stands in the draft. All three go through `compose`, which writes into the draft, flattens it
with the stand-in for infinity that is configured at that moment, and leaves the draft blank
whether or not the writing succeeds. The objective is written by whole arrays in the same manner.

Each operation gives its result together with the program as it stands afterwards.
-/

namespace LinearModel

/-- One coefficient of a row. -/
structure Item where
  name : String
  cell : Cell
  value : Binary64
  deriving DecidableEq

namespace Program

/-! ## Writing into the draft -/

/-- The entries written one after the other. The first that cannot be written ends it, and what has
been written until then stays in the draft. -/
def writeEach {α : Type} (write : Draft → α → Except ModelError Draft) :
    List α → Draft → Except ModelError Unit × Draft
  | [], draft => (.ok (), draft)
  | entry :: rest, draft =>
    match write draft entry with
    | .error error => (.error error, draft)
    | .ok next => writeEach write rest next

def writeItems : List Item → Draft → Except ModelError Unit × Draft :=
  writeEach fun draft item => draft.writeCell item.name item.cell item.value

def writeArrays : List (String × Dense) → Draft → Except ModelError Unit × Draft :=
  writeEach fun draft entry => draft.writeAll entry.1 entry.2

def writeEdits : List (String × Edit) → Draft → Except ModelError Unit × Draft :=
  writeEach fun draft entry => draft.writeEdit entry.1 entry.2

/-- Writes into the draft and records the flat coefficients. Where the writing fails nothing is
recorded. Either way the draft is erased as the writing has left it. -/
def compose (config : Configuration) (write : Draft → Except ModelError Unit × Draft)
    (record : List Binary64 → Program → Program) (program : Program) :
    Except ModelError Unit × Program :=
  match write program.draft with
  | (.error error, written) => (.error error, { program with draft := written.eraseAll })
  | (.ok (), written) =>
    (.ok (), record (written.flatten config.bigM) { program with draft := written.eraseAll })

/-! ## Rows -/

def appendRow (relation : Relation) (rhs : Binary64) (coefficients : List Binary64)
    (program : Program) : Program :=
  { program with rows := program.rows ++ [⟨coefficients, relation, rhs⟩] }

/-- One more row, given by single coefficients; of two for one cell the later counts. -/
def addItems (config : Configuration) (items : List Item) (rhs : Binary64) (relation : Relation) :
    Program → Except ModelError Unit × Program :=
  compose config (writeItems items) (appendRow relation rhs)

/-- One more row, given by whole arrays; blocks that are not mentioned have zeros. -/
def addArrays (config : Configuration) (arrays : List (String × Dense)) (rhs : Binary64)
    (relation : Relation) : Program → Except ModelError Unit × Program :=
  compose config (writeArrays arrays) (appendRow relation rhs)

/-- One more row, given by edits of a blank draft. -/
def addEdits (config : Configuration) (edits : List (String × Edit)) (rhs : Binary64)
    (relation : Relation) : Program → Except ModelError Unit × Program :=
  compose config (writeEdits edits) (appendRow relation rhs)

/-! ## The objective -/

/-- The objective, given by whole arrays; it replaces the one before. -/
def setObjective (config : Configuration) (arrays : List (String × Dense)) (sense : Sense) :
    Program → Except ModelError Unit × Program :=
  compose config (writeArrays arrays) fun coefficients program =>
    { program with objective := some ⟨coefficients, sense⟩ }

end Program

end LinearModel
