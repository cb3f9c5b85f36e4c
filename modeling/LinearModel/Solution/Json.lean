import LinearModel.Document.Error
import LinearModel.Json.Arrays
import LinearModel.Json.Printer
import LinearModel.Solution

/-!
# Solutions in JSON

A solution is written as an object with its status, its objective value and the values of each
block as nested arrays.
-/

namespace LinearModel.Solution

def json (solution : Solution) : Json.Value :=
  .object
    [("status", .string solution.status.text),
      ("objective_value", .ofNumber solution.objectiveValue),
      ("values", .object (solution.values.map fun entry => (entry.1, .ofTensor entry.2)))]

def jsonText (solution : Solution) : String := solution.json.text

/-- Hands the text to `write`, which says whether the text could be kept. -/
def writeJson {m : Type → Type} [Monad m] (solution : Solution) (write : String → m Bool) :
    m (Except DocumentError Unit) := do
  if ← write solution.jsonText then return .ok () else return .error .unwritable

end LinearModel.Solution
