import LinearModel.Proofs.Binary64.Exactness
import LinearModel.Proofs.WeightedSum
import LinearModel.Solver.Staging

/-!
# Values moved onto whole numbers

With scaling a value that is near a whole number is moved onto it, and the objective value is summed
up anew. How near a value is can be computed without rounding, so a value is moved exactly if the
nearest whole number lies within the tolerance. The sum is taken in 64-bit numbers, front to back,
and it is the exact one as long as no product and no sum on the way is rounded.

* `snapped_snap`, `snap_snap` — what becomes of a value, and that a second time changes nothing
* `toRat?_weightedSum` — when the sum is exact
-/

namespace LinearModel

/-! ## Moving a value -/

/-- A finite value is reported as the nearest whole number if that lies within the tolerance, and
else as it is. -/
def Snapped (tolerance value reported : Binary64) : Prop :=
  ∃ n : Int, Nearest value.exact n
    ∧ (tolerance.Above |value.exact - n| → reported.toRat? = some (n : Rat))
    ∧ (¬ tolerance.Above |value.exact - n| → reported = value)

theorem snapped_snap (tolerance : Binary64) {value : Binary64} (h : value.isFinite = true) :
    Snapped tolerance value (snap tolerance value) := by
  obtain ⟨n, hn, hround, hdist⟩ := Binary64.exists_nearest (Binary64.toRat?_of_isFinite h)
  refine ⟨n, hn, fun hnear => ?_, fun hfar => ?_⟩
  · rw [snap, if_pos ((Binary64.le_iff_above hdist).mpr hnear), hround]
  · rw [snap, if_neg (mt (Binary64.le_iff_above hdist).mp hfar)]

theorem snap_of_roundHalfAway_eq (tolerance : Binary64) {value : Binary64}
    (h : value.roundHalfAway = value) : snap tolerance value = value := by
  rw [snap, h]
  exact ite_self _

/-- **Moving a value a second time changes nothing.** -/
theorem snap_snap (tolerance value : Binary64) :
    snap tolerance (snap tolerance value) = snap tolerance value := by
  by_cases hnear : (value - value.roundHalfAway).abs ≤ tolerance
  · have hsnap : snap tolerance value = value.roundHalfAway := if_pos hnear
    rw [hsnap]
    exact snap_of_roundHalfAway_eq tolerance (Binary64.roundHalfAway_roundHalfAway value)
  · have hsnap : snap tolerance value = value := if_neg hnear
    rw [hsnap, hsnap]

theorem isFinite_snap (tolerance : Binary64) {value : Binary64} (h : value.isFinite = true) :
    (snap tolerance value).isFinite = true := by
  obtain ⟨n, -, hnear, hfar⟩ := snapped_snap tolerance h
  by_cases hdist : tolerance.Above |value.exact - n|
  · exact (Binary64.toRat?_eq_some_iff.mp (hnear hdist)).1
  · rw [hfar hdist]
    exact h

/-! ## Summing up -/

/-- From `total` on, no product of a weight and a value and no sum on the way has to be rounded. -/
def Unrounded : (total : Rat) → (weights values : List Binary64) → Prop
  | total, weight :: weights, value :: values =>
    Representable (weight.exact * value.exact)
      ∧ Representable (total + weight.exact * value.exact)
      ∧ Unrounded (total + weight.exact * value.exact) weights values
  | _, _, _ => True

theorem toRat?_foldl_add {weights values : List Binary64} {start : Binary64} {total : Rat}
    (hstart : start.toRat? = some total) (hweights : ∀ x ∈ weights, x.isFinite = true)
    (hvalues : ∀ x ∈ values, x.isFinite = true) (h : Unrounded total weights values) :
    ((List.zipWith (· * ·) weights values).foldl (· + ·) start).toRat?
      = some (total + dot weights (values.map Binary64.exact)) := by
  induction weights generalizing values start total with
  | nil => simpa [dot] using hstart
  | cons weight weights ih =>
    cases values with
    | nil => simpa [dot] using hstart
    | cons value values =>
      obtain ⟨hproduct, hsum, hrest⟩ := h
      have hmul := Binary64.toRat?_mul
        (Binary64.toRat?_of_isFinite (hweights weight List.mem_cons_self))
        (Binary64.toRat?_of_isFinite (hvalues value List.mem_cons_self)) hproduct
      have hlater := ih (Binary64.toRat?_add hstart hmul hsum)
        (fun x hx => hweights x (List.mem_cons_of_mem _ hx))
        (fun x hx => hvalues x (List.mem_cons_of_mem _ hx)) hrest
      rw [add_assoc] at hlater
      exact hlater

/-- **The sum is exact where nothing is rounded.** -/
theorem toRat?_weightedSum {weights values : List Binary64}
    (hweights : ∀ x ∈ weights, x.isFinite = true) (hvalues : ∀ x ∈ values, x.isFinite = true)
    (h : Unrounded 0 weights values) :
    (weightedSum weights values).toRat? = some (dot weights (values.map Binary64.exact)) := by
  have hsum := @toRat?_foldl_add _ _ .zero 0 rfl hweights hvalues h
  rwa [zero_add] at hsum

end LinearModel
