import LinearModel.Draft
import LinearModel.Objective
import LinearModel.Row

/-!
# Programs

A program is a layout of blocks, the rows over them, an objective once one is set, and the status
of the last time it was solved. It also holds the draft in which the next row is written, which is
blank whenever no row is being written.
-/

namespace LinearModel

/-- A linear or mixed integer program over named blocks of variables. -/
structure Program where
  layout : Layout
  draft : Draft
  rows : List Row
  objective : Option Objective
  status : Status
  deriving DecidableEq

namespace Program

/-- No rows and no objective yet. -/
def ofLayout (layout : Layout) : Program where
  layout := layout
  draft := .blank layout
  rows := []
  objective := none
  status := .unoptimized

def ofBlocks (blocks : List (String × Block)) : Except ModelError Program := do
  return ofLayout (← Layout.ofBlocks blocks)

end Program

end LinearModel
