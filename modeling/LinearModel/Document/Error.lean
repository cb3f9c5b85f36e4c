import LinearModel.Error

/-!
# Errors of documents

What can go wrong when a program is read from a document or a solution is written to one, by
cause. Messages call a row a constraint and its arrays matrices, as the documents do.

The building of a program can also stop without an answer, which is no error: nobody is told of it,
and it has no message.
-/

namespace LinearModel

/-- What goes wrong with documents. -/
inductive DocumentError where
  /-- There is no text to be read. -/
  | unreadable
  /-- The text is no document. -/
  | unparsable
  /-- The values for a name are nested arrays of different lengths. -/
  | ragged (name : String)
  /-- The values for a name are something else than numbers. -/
  | notNumeric (name : String)
  /-- The row of this position gives both coefficients and arrays. -/
  | mixedRow (position : Nat)
  | unwritable
  | model (error : ModelError)
  deriving DecidableEq

def DocumentError.message : DocumentError → String
  | unreadable => "Unable to read file"
  | unparsable => "Unable to parse json"
  | ragged name => s!"Values for `{name}` are not a rectangular array"
  | notNumeric name => s!"Values for `{name}` must be numbers or arrays of numbers"
  | mixedRow position => s!"Constraint {position} gives both coefficients and matrices"
  | unwritable => "Unable to write to file"
  | model error => error.message

/-- How building ends without a program. -/
inductive DocumentStop where
  /-- The error is answered. -/
  | failed (error : DocumentError)
  /-- There is no answer: room was asked for more numbers than an array can hold. -/
  | capacityOverflow
  deriving DecidableEq

/-- An error of the program that is being built. -/
def DocumentStop.model (error : ModelError) : DocumentStop := .failed (.model error)

end LinearModel
