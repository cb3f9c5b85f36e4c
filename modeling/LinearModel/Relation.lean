import LinearModel.Error
import LinearModel.Text.Blank

/-!
# Relations

The relation between the two sides of a row, its text, and the texts that are read as one: blanks
around the text do not count, nor does the case of ASCII letters.
-/

namespace LinearModel

inductive Relation where
  | eq
  | le
  | ge
  deriving DecidableEq, Repr

namespace Relation

def text : Relation → String
  | eq => "="
  | le => "<="
  | ge => ">="

/-- The spellings in small letters. -/
def ofWord? (word : String) : Option Relation :=
  if word ∈ ["=", "==", "eq"] then some eq
  else if word ∈ ["<=", "leq", "le"] then some le
  else if word ∈ [">=", "geq", "ge"] then some ge
  else none

/-- The relation that a text stands for; an error shows the text as it was given. -/
def ofText (text : String) : Except ModelError Relation :=
  match ofWord? (String.ofList (Text.toAsciiLower (Text.strip text.toList))) with
  | some relation => .ok relation
  | none => .error (.unknownRelation text)

end Relation

end LinearModel
