import LinearModel.Binary64.Basic

/-!
# Objectives
-/

namespace LinearModel

inductive Sense where
  | minimize
  | maximize
  deriving DecidableEq, Repr

namespace Sense

instance : Inhabited Sense := ⟨minimize⟩

def ofMinimize (minimize : Bool) : Sense := if minimize then .minimize else .maximize

def isMinimize (sense : Sense) : Bool := sense = .minimize

def text : Sense → String
  | minimize => "minimize"
  | maximize => "maximize"

end Sense

/-- One coefficient for each variable, and the direction in which the sum is to go. -/
structure Objective where
  coefficients : List Binary64
  sense : Sense
  deriving DecidableEq

end LinearModel
