import LinearModel.Decimal.Style
import LinearModel.Relation

/-!
# Rows

A row relates a weighted sum of all variables to a number. Its text shows the terms whose weight
is not zero, the variables being named after their flat index.
-/

namespace LinearModel

/-- One coefficient for each variable, a relation and a right-hand side. -/
structure Row where
  coefficients : List Binary64
  relation : Relation
  rhs : Binary64
  deriving DecidableEq

namespace Row

/-- The weights that are not zero, with the flat index of their variable. -/
def terms (coefficients : List Binary64) : List (Nat × Binary64) :=
  (coefficients.zipIdx.filter fun entry => !entry.1.isZero).map fun entry => (entry.2, entry.1)

def termText (term : Nat × Binary64) : String := term.2.text ++ "*v" ++ toString term.1

/-- `2*v0 + 1*v2 <= 4`; a sum without terms is shown as a zero. -/
def text (row : Row) : String :=
  let sum := match terms row.coefficients with
    | [] => "0"
    | shown => " + ".intercalate (shown.map termText)
  sum ++ " " ++ row.relation.text ++ " " ++ row.rhs.text

end Row

end LinearModel
