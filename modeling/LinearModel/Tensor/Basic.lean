import LinearModel.Binary64.Basic
import LinearModel.Shape

/-!
# Arrays

A grid is a shape and one element for each of its positions, in row-major order; a tensor is a grid
of numbers. Only the operations that a model needs are here.
-/

namespace LinearModel

/-- One element for each position of a shape, in row-major order. -/
structure Grid (α : Type) where
  shape : Shape
  entries : List α
  length_entries : entries.length = shape.size
  deriving DecidableEq

namespace Grid

variable {α β : Type}

/-- The array of a shape, if the elements are as many as its positions. -/
def ofEntries? (shape : Shape) (entries : List α) : Option (Grid α) :=
  if h : entries.length = shape.size then some ⟨shape, entries, h⟩ else none

def get? (t : Grid α) (index : List Nat) : Option α :=
  if t.shape.inRange index then t.entries[t.shape.position index]? else none

/-- One element replaced; an index outside the shape changes nothing. -/
def set (t : Grid α) (index : List Nat) (value : α) : Grid α :=
  if t.shape.inRange index then
    ⟨t.shape, t.entries.set (t.shape.position index) value, by simp [t.length_entries]⟩
  else t

def map (f : α → β) (t : Grid α) : Grid β :=
  ⟨t.shape, t.entries.map f, by simp [t.length_entries]⟩

/-- Every element by its index vector. -/
def mapIndexed (f : List Nat → α → β) (t : Grid α) : Grid β :=
  ⟨t.shape, List.zipWith f t.shape.indices t.entries, by
    simp [Shape.length_indices, t.length_entries]⟩

theorem ext {s t : Grid α} (hshape : s.shape = t.shape) (hentries : s.entries = t.entries) :
    s = t := by
  cases s
  cases t
  cases hshape
  cases hentries
  rfl

theorem get?_of_inRange {t : Grid α} {index : List Nat} (h : t.shape.inRange index = true) :
    t.get? index = t.entries[t.shape.position index]? := if_pos h

theorem exists_get? {t : Grid α} {index : List Nat} (h : t.shape.inRange index = true) :
    ∃ x, t.get? index = some x := by
  have hlt : t.shape.position index < t.entries.length :=
    t.length_entries ▸ Shape.position_lt h
  exact ⟨_, (get?_of_inRange h).trans (List.getElem?_eq_getElem hlt)⟩

theorem get?_map (f : α → β) (t : Grid α) (index : List Nat) :
    (t.map f).get? index = (t.get? index).map f := by
  unfold get?
  by_cases h : t.shape.inRange index = true <;> simp [map, h]

theorem entries_set {t : Grid α} {index : List Nat} (h : t.shape.inRange index = true)
    (value : α) : (t.set index value).entries = t.entries.set (t.shape.position index) value := by
  rw [set, if_pos h]

@[simp] theorem shape_set (t : Grid α) (index : List Nat) (value : α) :
    (t.set index value).shape = t.shape := by
  unfold set
  split <;> rfl

end Grid

/-- One number for each position of a shape, in row-major order. -/
abbrev Tensor : Type := Grid Binary64

namespace Tensor

/-- The same number everywhere. -/
def filled (shape : Shape) (value : Binary64) : Tensor :=
  ⟨shape, List.replicate shape.size value, List.length_replicate⟩

def zeros (shape : Shape) : Tensor := filled shape .zero

/-- The array of one axis. -/
def ofList (values : List Binary64) : Tensor := ⟨[values.length], values, by simp⟩

/-- The array of a shape, if the numbers are as many as its positions. -/
def ofEntries? (shape : Shape) (entries : List Binary64) : Option Tensor :=
  Grid.ofEntries? shape entries

end Tensor

end LinearModel
