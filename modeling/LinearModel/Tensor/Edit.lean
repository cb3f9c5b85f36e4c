import LinearModel.Tensor.Basic

/-!
# Edits

An edit changes the elements of an array and keeps its shape; it sees what the array held before.
Edits compose, and the ones that are named here are those of everyday use.
-/

namespace LinearModel

/-- A function on arrays that keeps the shape. -/
structure Edit where
  apply : Tensor → Tensor
  shape_apply : ∀ t, (apply t).shape = t.shape

namespace Edit

def keep : Edit := ⟨id, fun _ => rfl⟩

/-- The first edit, and then the second on its result. -/
def andThen (first second : Edit) : Edit :=
  ⟨fun t => second.apply (first.apply t), fun t => by rw [second.shape_apply, first.shape_apply]⟩

/-- The edits in order. -/
def sequence (edits : List Edit) : Edit := edits.foldl andThen keep

def fill (value : Binary64) : Edit := ⟨fun t => t.map fun _ => value, fun _ => rfl⟩

/-- One value for all elements whose index on `axis` is `i`. -/
def fillSlice (axis i : Nat) (value : Binary64) : Edit :=
  ⟨fun t => t.mapIndexed fun index x => if index[axis]? = some i then value else x, fun _ => rfl⟩

def set (index : List Nat) (value : Binary64) : Edit := ⟨fun t => t.set index value, by simp⟩

def map (f : Binary64 → Binary64) : Edit := ⟨fun t => t.map f, fun _ => rfl⟩

end Edit

end LinearModel
