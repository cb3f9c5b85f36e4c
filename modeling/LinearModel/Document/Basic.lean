import LinearModel.Json.Record
import LinearModel.Program.Authoring

/-!
# Documents

A program can be written down as a JSON document: its blocks by name, its rows in order and, if
there is one, its objective. A document is read as a whole before anything is built from it;
arrays of numbers stay JSON values until then.

The words of the format are its own: blocks are called notations, rows constraints, and the arrays
of a row matrices.
-/

namespace LinearModel

/-- What is written of a block. -/
structure BlockEntry where
  shape : Option Shape
  lower : Option Json.Value
  upper : Option Json.Value
  kind : VariableKind

/-- What is written of a row: single coefficients or whole arrays, and the relation as a text. -/
structure RowEntry where
  items : List Item
  arrays : Named Json.Value
  rhs : Binary64
  relation : String

/-- What is written of an objective. -/
structure ObjectiveEntry where
  arrays : Named Json.Value
  sense : Sense

structure Document where
  blocks : Named BlockEntry
  rows : List RowEntry
  objective : Option ObjectiveEntry

namespace Document

open Json (Tree)

/-! ## Fields -/

/-- A shape is written as one length or as a list of dimensions. -/
def shape? : Tree → Option Shape
  | .array dims => dims.mapM Tree.index?
  | tree => tree.index?.map fun length => [length]

/-- A cell is written as a row-major number or as one index for each axis. -/
def cell? : Tree → Option Cell
  | .array index => (index.mapM Tree.index?).map .multi
  | tree => tree.index?.map .flat

def kind? (tree : Tree) : Option VariableKind :=
  match tree.word? with
  | some "continuous" => some .continuous
  | some "integer" => some .integer
  | _ => none

def sense? (tree : Tree) : Option Sense :=
  match tree.word? with
  | some "minimize" => some .minimize
  | some "maximize" => some .maximize
  | _ => none

/-- A value that lies within so many arrays and objects of the document. -/
def valueWithin? (levels : Nat) : Tree → Option Json.Value :=
  Tree.value? (Json.maxDepth - levels)

/-! ## Entries -/

def blockEntry? (tree : Tree) : Option BlockEntry := do
  let record ← tree.record? ["shape", "lower_bound", "upper_bound", "type"]
  return {
    shape := ← record.optional? "shape" shape?
    lower := ← record.optional? "lower_bound" (valueWithin? 3)
    upper := ← record.optional? "upper_bound" (valueWithin? 3)
    kind := ← record.withDefault? "type" .continuous kind? }

def item? (tree : Tree) : Option Item := do
  let record ← tree.record? ["name", "index", "value"]
  return {
    name := ← record.required? "name" Tree.text?
    cell := (← record.optional? "index" cell?).getD .first
    value := ← record.required? "value" Tree.number? }

def rowEntry? (tree : Tree) : Option RowEntry := do
  let record ← tree.record? ["coefficients", "matrices", "rhs", "relation"]
  return {
    items := ← record.withDefault? "coefficients" [] (Tree.list? item?)
    arrays := ← record.withDefault? "matrices" [] (Tree.named? (valueWithin? 4))
    rhs := ← record.required? "rhs" Tree.number?
    relation := ← record.required? "relation" Tree.text? }

def objectiveEntry? (tree : Tree) : Option ObjectiveEntry := do
  let record ← tree.record? ["coefficients", "sense"]
  return {
    arrays := ← record.required? "coefficients" (Tree.named? (valueWithin? 3))
    sense := ← record.required? "sense" sense? }

/-! ## The whole -/

def ofTree? (tree : Tree) : Option Document := do
  let record ← tree.record? ["notations", "constraints", "objective"]
  return {
    blocks := ← record.required? "notations" (Tree.named? blockEntry?)
    rows := ← record.withDefault? "constraints" [] (Tree.list? rowEntry?)
    objective := ← record.optional? "objective" objectiveEntry? }

/-- The document of a text. -/
def ofText? (text : String) : Option Document := (Tree.ofText? text).bind ofTree?

end Document

end LinearModel
