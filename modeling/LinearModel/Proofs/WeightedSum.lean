import LinearModel.Proofs.Binary64.Order
import LinearModel.Proofs.Layout.Places
import LinearModel.Row
import Mathlib.Algebra.BigOperators.Group.List.Basic
import Mathlib.Algebra.Ring.Rat
import Mathlib.Data.List.GetD

/-!
# Weighted sums, exactly

A sum of weights times values can be taken over a flat vector, over the terms that are written down,
or over the index vectors of an array. Over the rationals, where nothing is rounded, all three are
the same.

* `sparseDot_terms` — terms without weight can be left out
* `dot_flatMap` — a sum over vectors behind one another is the sum of the sums
* `dot_entries` — a sum over the entries of two arrays goes over the index vectors
-/

namespace LinearModel

/-- Weights times values, added up exactly. -/
def dot (weights : List Binary64) (values : List Rat) : Rat :=
  (List.zipWith (fun weight value => weight.exact * value) weights values).sum

/-- Weights times the values at their indices, added up exactly. -/
def sparseDot (terms : List (Nat × Binary64)) (values : List Rat) : Rat :=
  (terms.map fun term => term.2.exact * values.getD term.1 0).sum

/-! ## Leaving out zeros -/

theorem sum_map_filter {α : Type} {f : α → Rat} {p : α → Bool} {xs : List α}
    (h : ∀ x ∈ xs, p x = false → f x = 0) : ((xs.filter p).map f).sum = (xs.map f).sum := by
  induction xs with
  | nil => rfl
  | cons x xs ih =>
    have hrest := ih fun y hy => h y (List.mem_cons_of_mem _ hy)
    cases hx : p x with
    | true => simp [hx, hrest]
    | false => simp [hx, hrest, h x List.mem_cons_self hx]

/-- The sum over a vector from the value `k` on, with the indices of the values. -/
theorem sum_map_zipIdx (weights : List Binary64) (values : List Rat) (k : Nat) :
    ((weights.zipIdx k).map fun entry => entry.1.exact * values.getD entry.2 0).sum
      = dot weights (values.drop k) := by
  induction weights generalizing k with
  | nil => simp [dot]
  | cons weight rest ih =>
    rw [List.zipIdx_cons, List.map_cons, List.sum_cons, ih]
    by_cases hk : k < values.length
    · rw [List.drop_eq_getElem_cons hk, List.getD_eq_getElem _ _ hk, dot, dot,
        List.zipWith_cons_cons, List.sum_cons]
    · have hdrop : values.drop k = [] := List.drop_eq_nil_of_le (Nat.le_of_not_lt hk)
      have hdrop' : values.drop (k + 1) = [] := List.drop_eq_nil_of_le (by omega)
      rw [hdrop, hdrop', List.getD_eq_default _ _ (Nat.le_of_not_lt hk)]
      simp [dot]

/-- **The terms that are written down make up the whole sum.** -/
theorem sparseDot_terms (weights : List Binary64) (values : List Rat) :
    sparseDot (Row.terms weights) values = dot weights values := by
  have hzero : ∀ entry ∈ weights.zipIdx, (!entry.1.isZero) = false →
      entry.1.exact * values.getD entry.2 0 = 0 := by
    intro entry _ h
    rw [Binary64.exact_of_isZero (by simpa using h), Rat.zero_mul]
  have hsum := sum_map_zipIdx weights values 0
  rw [List.drop_zero] at hsum
  rw [sparseDot, Row.terms, List.map_map, ← hsum, ← sum_map_filter hzero]
  rfl

/-! ## Behind one another -/

theorem dot_append {weights weights' : List Binary64} {values values' : List Rat}
    (h : weights.length = values.length) :
    dot (weights ++ weights') (values ++ values') = dot weights values + dot weights' values' := by
  rw [dot, List.zipWith_append h, List.sum_append]
  rfl

theorem dot_flatMap {α : Type} {xs : List α} {weights : α → List Binary64} {values : α → List Rat}
    (h : ∀ x ∈ xs, (weights x).length = (values x).length) :
    dot (xs.flatMap weights) (xs.flatMap values)
      = (xs.map fun x => dot (weights x) (values x)).sum := by
  induction xs with
  | nil => rfl
  | cons x xs ih =>
    rw [List.flatMap_cons, List.flatMap_cons, dot_append (h x List.mem_cons_self),
      ih fun y hy => h y (List.mem_cons_of_mem _ hy), List.map_cons, List.sum_cons]

/-! ## Over index vectors -/

/-- **A sum over entries is a sum over index vectors.** -/
theorem dot_entries {weights : Tensor} {values : Grid Rat} (h : values.shape = weights.shape) :
    dot weights.entries values.entries
      = (weights.shape.indices.map fun index =>
        ((weights.get? index).getD .zero).exact * (values.get? index).getD 0).sum := by
  have hzip : List.zipWith (fun weight value => weight.exact * value) weights.entries values.entries
      = List.zipWith (fun weight value => (weight.getD .zero).exact * value.getD 0)
        (weights.entries.map some) (values.entries.map some) := by
    rw [List.zipWith_map]
    rfl
  rw [dot, hzip, Grid.map_some_entries, Grid.map_some_entries, h, List.zipWith_map,
    List.zipWith_self]

end LinearModel
