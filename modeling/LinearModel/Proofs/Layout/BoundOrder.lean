import LinearModel.Proofs.Binary64.Order
import LinearModel.Proofs.Program.StandIn

/-!
# The order of the bounds

Where the bounds of the blocks are flattened, infinities are replaced and finite bounds stay as they
are, whether or not they are within the stand-in. So the two bounds of a variable stay in order
unless the stand-in takes the place of one of them only, and the other lies beyond it.

* `capInfinity_le_iff` — this of two numbers
* `WellFormed.exists_place` — every flat index is the place of an index vector of some block
* `bounds_ordered_iff` — the flattened bounds of a reached layout, index by index
* `lower_bound_passes_upper` — bounds that are in order, and are not after flattening
-/

namespace LinearModel

/-! ## Two numbers -/

namespace Binary64

variable {x bigM lower upper : Binary64}

theorem capInfinity_of_isFinite (h : x.isFinite = true) (bigM : Binary64) :
    x.capInfinity bigM = x := by
  cases x with
  | infinity negative => cases h
  | _ => rfl

theorem le_refl_of_isFinite (h : x.isFinite = true) : x ≤ x :=
  (le_iff_exact h h).mpr (le_refl _)

/-- One of the bounds is infinite, and the other is a finite number beyond the stand-in that takes
its place. -/
def Beyond (bigM lower upper : Binary64) : Prop :=
  lower = .infinity true ∧ upper.isFinite = true ∧ upper.exact < -bigM.exact
    ∨ upper = .infinity false ∧ lower.isFinite = true ∧ bigM.exact < lower.exact

theorem beyond_lower_iff (h : upper.isFinite = true) :
    Beyond bigM (.infinity true) upper ↔ upper.exact < -bigM.exact := by
  constructor
  · rintro (⟨-, -, hlt⟩ | ⟨rfl, -⟩)
    · exact hlt
    · cases h
  · exact fun hlt => .inl ⟨rfl, h, hlt⟩

theorem beyond_upper_iff (h : lower.isFinite = true) :
    Beyond bigM lower (.infinity false) ↔ bigM.exact < lower.exact := by
  constructor
  · rintro (⟨rfl, -⟩ | ⟨-, -, hlt⟩)
    · cases h
    · exact hlt
  · exact fun hlt => .inr ⟨rfl, h, hlt⟩

/-! ### Infinite and finite numbers -/

theorem infinity_or_isFinite (h : x ≠ nan) :
    (∃ negative, x = infinity negative) ∨ x.isFinite = true := by
  cases x with
  | nan => exact absurd rfl h
  | infinity negative => exact .inl ⟨negative, rfl⟩
  | _ => exact .inr rfl

theorem ne_nan_of_le (h : lower ≤ upper) : lower ≠ nan ∧ upper ≠ nan := by
  constructor
  · rintro rfl
    cases h
  · rintro rfl
    cases lower with
    | infinity negative => cases negative <;> cases h
    | _ => cases h

theorem not_infinity_le (h : x.isFinite = true) : ¬ infinity false ≤ x := by
  intro hle
  cases x with
  | infinity negative => cases h
  | _ => cases hle

theorem not_le_neg_infinity (h : x.isFinite = true) : ¬ x ≤ infinity true := by
  intro hle
  cases x with
  | infinity negative => cases h
  | _ => cases hle

/-- **Replacing infinities keeps two bounds in order** unless a finite one is beyond the stand-in of
the other. -/
theorem capInfinity_le_iff (hfinite : bigM.isFinite = true) (hpos : 0 < bigM.exact)
    (h : lower ≤ upper) :
    lower.capInfinity bigM ≤ upper.capInfinity bigM ↔ ¬ Beyond bigM lower upper := by
  have hneg : (-bigM).isFinite = true := (isFinite_neg bigM).trans hfinite
  obtain ⟨hlower, hupper⟩ := ne_nan_of_le h
  rcases infinity_or_isFinite hlower with ⟨negative, rfl⟩ | hlower
  · rcases infinity_or_isFinite hupper with ⟨negative', rfl⟩ | hupper
    · -- both are replaced, and `-bigM ≤ bigM`
      have hopposite : -bigM ≤ bigM := by
        rw [le_iff_exact hneg hfinite, exact_neg]
        linarith
      have hnone : ¬ Beyond bigM (.infinity negative) (.infinity negative') := by
        rintro (⟨-, hfalse, -⟩ | ⟨-, hfalse, -⟩) <;> cases hfalse
      refine iff_of_true ?_ hnone
      cases negative with
      | true => cases negative' <;> simp [capInfinity, le_refl_of_isFinite hneg, hopposite]
      | false =>
        cases negative' with
        | true => cases h
        | false => exact le_refl_of_isFinite hfinite
    · cases negative with
      | false => exact absurd h (not_infinity_le hupper)
      | true =>
        rw [capInfinity_of_isFinite hupper, beyond_lower_iff hupper, not_lt, ← exact_neg]
        exact le_iff_exact hneg hupper
  · rcases infinity_or_isFinite hupper with ⟨negative, rfl⟩ | hupper
    · cases negative with
      | true => exact absurd h (not_le_neg_infinity hlower)
      | false =>
        rw [capInfinity_of_isFinite hlower, beyond_upper_iff hlower, not_lt]
        exact le_iff_exact hlower hfinite
    · rw [capInfinity_of_isFinite hlower, capInfinity_of_isFinite hupper]
      refine iff_of_true h ?_
      rintro (⟨rfl, -⟩ | ⟨rfl, -⟩)
      · cases hlower
      · cases hupper

end Binary64

/-! ## All the variables -/

namespace Layout

/-- The lower bound of each variable is at most its upper bound; not-a-number is neither. -/
def Ordered (layout : Layout) : Prop :=
  ∀ block ∈ layout.blocks, List.Forall₂ (· ≤ ·) block.lower.entries block.upper.entries

instance (layout : Layout) : Decidable layout.Ordered :=
  inferInstanceAs (Decidable (∀ block ∈ layout.blocks,
    List.Forall₂ (· ≤ ·) block.lower.entries block.upper.entries))

theorem Ordered.le {layout : Layout} (h : layout.Ordered) (hwf : layout.WellFormed) {block : Placed}
    (hblock : block ∈ layout.blocks) {index : List Nat} (hindex : block.shape.inRange index = true)
    {lower upper : Binary64} (hlower : block.lower.get? index = some lower)
    (hupper : block.upper.get? index = some upper) : lower ≤ upper := by
  obtain ⟨-, -, hshapeL, hshapeU⟩ := hwf.blocks block hblock
  rw [Grid.get?_of_inRange (hshapeL ▸ hindex), hshapeL] at hlower
  rw [Grid.get?_of_inRange (hshapeU ▸ hindex), hshapeU] at hupper
  obtain ⟨hltL, rfl⟩ := List.getElem?_eq_some_iff.mp hlower
  obtain ⟨hltU, rfl⟩ := List.getElem?_eq_some_iff.mp hupper
  exact (h block hblock).get hltL hltU

/-- **Every flat index is the place of an index vector.** -/
theorem WellFormed.exists_place {layout : Layout} (hwf : layout.WellFormed) {i : Nat}
    (hi : i < layout.dimension) :
    ∃ block ∈ layout.blocks, ∃ index, block.shape.inRange index = true
      ∧ block.offset + block.shape.position index = i := by
  obtain ⟨block, hblock, hrange⟩ := hwf.exists_mem_range hi
  rw [Placed.mem_range_iff] at hrange
  have hlt : i - block.offset < block.shape.size := by
    have hlength : block.length = block.shape.size := rfl
    omega
  refine ⟨block, hblock, block.shape.unravel (i - block.offset), Shape.inRange_unravel hlt, ?_⟩
  rw [Shape.position_unravel hlt]
  omega

/-- **The flattened bounds are in order exactly where the stand-in is not passed.** Of a reached
layout whose bounds are in order, each flat index is the place of one lower and one upper bound.
What stands there after infinities are replaced by a positive finite number is in order, unless one
of the two is infinite and the other is a finite number beyond the stand-in. -/
theorem bounds_ordered_iff (attempts : List (String × Block)) {bigM : Binary64}
    (hfinite : bigM.isFinite = true) (hpos : 0 < bigM.exact)
    (hordered : (ofAttempts attempts).Ordered) :
    let layout := ofAttempts attempts
    (layout.lowerBounds bigM).length = layout.dimension
      ∧ (layout.upperBounds bigM).length = layout.dimension
      ∧ ∀ i < layout.dimension, ∃ block ∈ layout.blocks, ∃ index lower upper,
        block.shape.inRange index = true ∧ block.offset + block.shape.position index = i
          ∧ block.lower.get? index = some lower ∧ block.upper.get? index = some upper
          ∧ (layout.lowerBounds bigM)[i]? = some (lower.capInfinity bigM)
          ∧ (layout.upperBounds bigM)[i]? = some (upper.capInfinity bigM)
          ∧ (lower.capInfinity bigM ≤ upper.capInfinity bigM
            ↔ ¬ Binary64.Beyond bigM lower upper) := by
  intro layout
  have hwf : layout.WellFormed := wellFormed_ofAttempts attempts
  obtain ⟨hlengthL, hlower⟩ :=
    hwf.capped (fun block hblock => (hwf.blocks block hblock).lower_shape) bigM
  obtain ⟨hlengthU, hupper⟩ :=
    hwf.capped (fun block hblock => (hwf.blocks block hblock).upper_shape) bigM
  refine ⟨hlengthL, hlengthU, fun i hi => ?_⟩
  obtain ⟨block, hblock, index, hindex, rfl⟩ := hwf.exists_place hi
  obtain ⟨lower, hgetL, hplaceL⟩ := hlower block hblock index hindex
  obtain ⟨upper, hgetU, hplaceU⟩ := hupper block hblock index hindex
  have hle : lower ≤ upper := hordered.le hwf hblock hindex hgetL hgetU
  exact ⟨block, hblock, index, lower, upper, hindex, rfl, hgetL, hgetU, hplaceL, hplaceU,
    Binary64.capInfinity_le_iff hfinite hpos hle⟩

/-- Both bounds infinite, an upper bound beyond the stand-in of an infinite lower one, and two
finite bounds that are both beyond the stand-in. -/
theorem bounds_ordered_iff_three_elements :
    let lower := Tensor.ofList [.infinity true, .infinity true, .ofInt 8]
    let upper := Tensor.ofList [.infinity false, .ofInt (-9), .ofInt 8]
    let layout := ofAttempts [("x", ⟨[3], .explicit lower, .explicit upper, .continuous⟩)]
    let bigM := Binary64.ofInt 7
    layout.Ordered ∧ layout.lowerBounds bigM = [.ofInt (-7), .ofInt (-7), .ofInt 8]
      ∧ layout.upperBounds bigM = [.ofInt 7, .ofInt (-9), .ofInt 8]
      ∧ ∀ i < 3, ∃ lowest highest, (layout.lowerBounds bigM)[i]? = some (lowest.capInfinity bigM)
        ∧ (layout.upperBounds bigM)[i]? = some (highest.capInfinity bigM)
        ∧ (lowest.capInfinity bigM ≤ highest.capInfinity bigM
          ↔ ¬ Binary64.Beyond bigM lowest highest) := by
  intro lower upper layout bigM
  have hordered : layout.Ordered := by decide +kernel
  refine ⟨hordered, by decide +kernel, by decide +kernel, fun i hi => ?_⟩
  have hfinite : bigM.isFinite = true := by decide +kernel
  have hpos : 0 < bigM.exact := by decide +kernel
  obtain ⟨-, -, hplaces⟩ := bounds_ordered_iff _ hfinite hpos hordered
  obtain ⟨-, -, -, lowest, highest, -, -, -, -, hlowest, hhighest, hiff⟩ := hplaces i hi
  exact ⟨lowest, highest, hlowest, hhighest, hiff⟩

/-- **The order of two bounds can be lost**: no lower bound, and an upper bound beyond the stand-in.
-/
theorem lower_bound_passes_upper :
    let layout := ofAttempts
      [("x", ⟨[1], .uniform (.infinity true), .uniform (.ofInt (-200000)), .continuous⟩)]
    let bigM := Binary64.ofInt 100000
    bigM.isFinite = true ∧ 0 < bigM.exact ∧ layout.Ordered
      ∧ ∃ lowest highest, (layout.lowerBounds bigM)[0]? = some lowest
        ∧ (layout.upperBounds bigM)[0]? = some highest ∧ ¬ lowest ≤ highest := by
  intro layout bigM
  refine ⟨by decide +kernel, by decide +kernel, by decide +kernel, .ofInt (-100000),
    .ofInt (-200000), ?_, ?_, ?_⟩
  all_goals decide +kernel

end Layout

end LinearModel
