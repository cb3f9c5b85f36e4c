import LinearModel.Json.Tree
import LinearModel.Named

/-!
# JSON values

A value is a tree whose literals have been understood. Reading one off a tree goes down at most as
many levels of arrays and objects as it is given; a literal that stands for nothing, in a key or
anywhere else, spoils the whole.
-/

namespace LinearModel.Json

/-- A JSON value. The numbers are those that can be spelled, so a finite one. An object keeps the
order in which its keys first came. -/
inductive Value where
  | null
  | bool (value : Bool)
  | number (value : Binary64)
  | string (text : String)
  | array (items : List Value)
  | object (members : List (String × Value))

instance : Inhabited Value := ⟨.null⟩

/-- How many arrays and objects of a text may lie in one another. -/
def maxDepth : Nat := 127

/-- The value of a tree with at most `depth` levels. -/
def Tree.value? : (depth : Nat) → Tree → Option Value
  | _, .null => some .null
  | _, .bool value => some (.bool value)
  | _, .number literal => literal.value?.map .number
  | _, .string literal => (StringLiteral.text? literal).map .string
  | 0, .array _ => none
  | 0, .object _ => none
  | depth + 1, .array items => (items.mapM (Tree.value? depth)).map .array
  | depth + 1, .object members => do
    let read ← members.mapM fun member => do
      return (← StringLiteral.text? member.1, ← Tree.value? depth member.2)
    return .object (Named.ofPairs read)

end LinearModel.Json
