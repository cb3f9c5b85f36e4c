import LinearModel.Error
import LinearModel.Tensor.Strided

/-!
# Dense values

Bounds and coefficient arrays are given either as one number for every element or as an array of
exactly the shape in question, which may lie in memory in any order.
-/

namespace LinearModel

/-- One number for every element, or an array. -/
inductive Dense where
  | uniform (value : Binary64)
  | explicit (array : Strided)
  deriving DecidableEq

namespace Dense

/-- The tensor of `shape` that the values stand for, an array read in the order of its index
vectors; an array of another shape is answered with that shape. -/
def fit (shape : Shape) : Dense → Except Shape Tensor
  | uniform value => .ok (.filled shape value)
  | explicit array => if array.shape = shape then .ok array.inOrder else .error array.shape

/-- The tensor that the values stand for as the coefficients of the block `name`. -/
def resolve (name : String) (shape : Shape) (values : Dense) : Except ModelError Tensor :=
  match values.fit shape with
  | .ok tensor => .ok tensor
  | .error found => .error (.shapeMismatch name shape found)

theorem shape_of_fit {shape : Shape} {values : Dense} {tensor : Tensor}
    (h : values.fit shape = .ok tensor) : tensor.shape = shape := by
  cases values with
  | uniform value =>
    simp only [fit, Except.ok.injEq] at h
    rw [← h]
    rfl
  | explicit array =>
    rw [fit] at h
    split at h
    · next hs => rw [← Except.ok.inj h, ← hs]; rfl
    · cases h

end Dense

end LinearModel
