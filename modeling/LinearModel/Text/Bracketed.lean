/-!
# Lists of numbers in messages

Shapes and indices are shown in messages as a bracketed list with a comma and a space between the
numbers.
-/

namespace LinearModel.Text

/-- `[2, 3]`, and `[]` for the empty list. -/
def bracketed (numbers : List Nat) : String :=
  "[" ++ ", ".intercalate (numbers.map toString) ++ "]"

end LinearModel.Text
