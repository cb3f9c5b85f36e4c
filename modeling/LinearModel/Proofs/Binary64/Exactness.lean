import LinearModel.Proofs.Binary64.Order
import Mathlib.Algebra.Order.Field.Basic
import Mathlib.Tactic.Ring

/-!
# Operations that round nothing

An operation is computed exactly and then rounded, so its result is exact wherever it is
representable. That is so of the distance of any number from the nearest whole number, and of this
whole number itself: a number that is not whole has places behind the point and so few before it
that there is room for both.

* `toRat?_add`, `toRat?_sub`, `toRat?_mul` — operations with a representable result
* `Nearest.representable` — the nearest whole number and the distance from it
* `exists_nearest` — rounding gives the nearest whole number exactly
* `roundHalfAway_roundHalfAway` — rounding a whole number changes nothing
-/

namespace LinearModel

/-! ## Nearest whole numbers -/

/-- No whole number is nearer to `v`, and of two that are equally near this is the one farther from
zero. -/
def Nearest (v : Rat) (n : Int) : Prop :=
  |v - n| < 1 / 2 ∨ |v - n| = 1 / 2 ∧ |v| < |(n : Rat)|

namespace Nearest

variable {v : Rat} {n : Int}

theorem le_half (h : Nearest v n) : |v - n| ≤ 1 / 2 := by
  rcases h with hlt | ⟨heq, -⟩
  · exact hlt.le
  · exact heq.le

theorem neg (h : Nearest v n) : Nearest (-v) (-n) := by
  have hdist : |-v - ((-n : Int) : Rat)| = |v - n| := by
    rw [Int.cast_neg, ← abs_neg]
    congr 1
    ring
  rwa [Nearest, hdist, abs_neg, Int.cast_neg, abs_neg]

/-- A number is at most as far from the nearest whole number as from zero. -/
theorem abs_sub_le (h : Nearest v n) : |v - n| ≤ |v| := by
  rcases le_or_gt (1 / 2) |v| with hlarge | hsmall
  · exact h.le_half.trans hlarge
  · -- zero is the nearest whole number
    have hn : |(n : Rat)| < 1 := by
      have htriangle : |(n : Rat)| ≤ |v| + |v - n| := by
        have := abs_sub_abs_le_abs_sub (n : Rat) v
        rw [abs_sub_comm] at this
        linarith
      have := h.le_half
      linarith
    have hzero : n = 0 := Int.abs_lt_one_iff.mp (by exact_mod_cast hn)
    simp [hzero]

theorem eq_of_whole {m : Int} (h : Nearest m n) : n = m := by
  have hhalf := h.le_half
  have hlt : |((m - n : Int) : Rat)| < 1 := by
    push_cast
    linarith
  have hzero : m - n = 0 := Int.abs_lt_one_iff.mp (by exact_mod_cast hlt)
  omega

end Nearest

theorem nearest_floor {v : Rat} (h : 0 ≤ v) : Nearest v (v + 1 / 2).floor := by
  have hle := Rat.floor_le (v + 1 / 2)
  have hlt := Rat.lt_floor_add_one (v + 1 / 2)
  generalize (v + 1 / 2).floor = n at hle hlt
  push_cast at hlt
  rcases eq_or_lt_of_le hle with heq | hless
  · -- half way between two whole numbers it is the upper one
    refine .inr ⟨?_, ?_⟩
    · rw [heq, show v - (v + 1 / 2) = -(1 / 2) by ring, abs_neg]
      exact abs_of_pos (by norm_num)
    · rw [heq, abs_of_nonneg h, abs_of_nonneg (by linarith)]
      linarith
  · exact .inl (abs_lt.mpr ⟨by linarith, by linarith⟩)

/-! ## Room -/

/-- A representable number is whole, or it is small and its distances from whole numbers have its
own places and no more. -/
theorem Representable.whole_or_small {v : Rat} (h : Representable v) :
    (∃ n : Int, v = n)
      ∨ |v| ≤ 2 ^ 52 ∧ ∀ n : Int, |v - n| ≤ |v| → Representable (v - n) := by
  obtain ⟨m, k, hm, hlimit, hv⟩ := h
  obtain ⟨p, hunits, -⟩ := Binary64.exists_unitsPerOne_eq
  have hpow : ∀ e : Nat, (0 : Rat) < 2 ^ e := fun e => by positivity
  have hdiv : v = m * 2 ^ k / 2 ^ p := by
    rw [hv, hunits, Rat.mkRat_eq_div]
    norm_num
  rcases le_or_gt p k with hle | hlt
  · refine .inl ⟨m * 2 ^ (k - p), ?_⟩
    rw [hdiv, div_eq_iff (hpow p).ne']
    push_cast
    rw [mul_assoc, ← pow_add, Nat.sub_add_cancel hle]
  · obtain ⟨e, rfl⟩ : ∃ e, p = e + 1 + k := ⟨p - k - 1, by omega⟩
    -- the places behind the point are `e + 1`
    have hplaces : ∀ z : Int, (z : Rat) * 2 ^ k / 2 ^ (e + 1 + k) = z / 2 ^ (e + 1) := by
      intro z
      rw [pow_add _ (e + 1), mul_div_mul_right _ _ (hpow k).ne']
    have habs : ∀ z : Int, |(z : Rat) / 2 ^ (e + 1)| = z.natAbs / 2 ^ (e + 1) := by
      intro z
      rw [abs_div, abs_of_pos (hpow _), Nat.cast_natAbs, Int.cast_abs]
    rw [hplaces] at hdiv
    refine .inr ⟨?_, fun n hn => ?_⟩
    · have hsize : ((m.natAbs : Nat) : Rat) ≤ 2 ^ 53 := by exact_mod_cast hm
      rw [hdiv, habs, div_le_iff₀ (hpow _)]
      calc ((m.natAbs : Nat) : Rat) ≤ 2 ^ 52 * 2 := by linarith
        _ ≤ 2 ^ 52 * 2 ^ (e + 1) := by
          refine mul_le_mul_of_nonneg_left ?_ (hpow _).le
          exact le_self_pow₀ one_le_two (Nat.succ_ne_zero e)
    · have hdist : v - n = ((m - n * 2 ^ (e + 1) : Int) : Rat) / 2 ^ (e + 1) := by
        rw [hdiv, eq_div_iff (hpow _).ne', sub_mul, div_mul_cancel₀ _ (hpow _).ne']
        push_cast
        rfl
      rw [hdist, hdiv, habs, habs, div_le_div_iff_of_pos_right (hpow _)] at hn
      have hle : (m - n * 2 ^ (e + 1)).natAbs ≤ m.natAbs := by exact_mod_cast hn
      refine ⟨m - n * 2 ^ (e + 1), k, hle.trans hm,
        lt_of_le_of_lt (Nat.mul_le_mul_right _ hle) hlimit, ?_⟩
      rw [hdist, hunits, Rat.mkRat_eq_div, ← hplaces]
      norm_num

/-- **There is room for the nearest whole number and for the distance from it.** -/
theorem Nearest.representable {v : Rat} {n : Int} (hn : Nearest v n) (h : Representable v) :
    Representable n ∧ Representable (v - n) := by
  rcases h.whole_or_small with ⟨m, rfl⟩ | ⟨hsmall, hdist⟩
  · rw [hn.eq_of_whole, sub_self]
    exact ⟨h, .zero⟩
  · refine ⟨Binary64.representable_intCast ?_, hdist n hn.abs_sub_le⟩
    have habs : |(n : Rat)| ≤ 2 ^ 53 := by
      have htriangle := abs_sub_abs_le_abs_sub (n : Rat) v
      rw [abs_sub_comm] at htriangle
      have := hn.abs_sub_le
      linarith
    have hint : |n| ≤ 2 ^ 53 := by exact_mod_cast habs
    rw [Int.abs_eq_natAbs] at hint
    exact_mod_cast hint

namespace Binary64

variable {x y : Binary64} {q r : Rat}

theorem toRat?_eq_some_iff : x.toRat? = some q ↔ x.isFinite = true ∧ x.exact = q := by
  rw [isFinite, exact]
  cases x.toRat? <;> simp

theorem toRat?_of_isFinite (h : x.isFinite = true) : x.toRat? = some x.exact :=
  toRat?_eq_some_iff.mpr ⟨h, rfl⟩

/-- A number that is not zero is known by the rational that it denotes. -/
theorem eq_of_toRat? (hx : x.toRat? = some q) (hy : y.toRat? = some q) (hq : q ≠ 0) : x = y := by
  cases x with
  | nan | infinity => cases hx
  | negZero => exact absurd (Option.some.inj hx).symm hq
  | real v hv =>
    cases y with
    | nan | infinity => cases hy
    | negZero => exact absurd (Option.some.inj hy).symm hq
    | real w hw =>
      cases hx
      cases hy
      rfl

theorem representable_of_toRat? (hx : x.toRat? = some q) : Representable q := by
  cases x with
  | nan | infinity => cases hx
  | negZero =>
    cases hx
    exact .zero
  | real v hv =>
    cases hx
    exact hv

theorem le_iff_above (hx : x.toRat? = some q) : x ≤ y ↔ y.Above q := by
  obtain ⟨hfinite, rfl⟩ := toRat?_eq_some_iff.mp hx
  cases y with
  | nan =>
    refine iff_of_false ?_ id
    cases x <;> exact Bool.false_ne_true
  | infinity negative =>
    cases x with
    | nan | infinity => cases hx
    | _ => cases negative <;> simp [LE.le, Binary64.le, Above]
  | _ => exact (le_iff_exact hfinite rfl).trans (above_iff_exact rfl).symm

/-! ## Operations with a representable result -/

theorem toRat?_zeroOfSign (negative : Bool) : (zeroOfSign negative).toRat? = some 0 := by
  cases negative <;> rfl

theorem toRat?_abs (hx : x.toRat? = some q) : x.abs.toRat? = some |q| := by
  cases x with
  | nan | infinity => cases hx
  | negZero =>
    cases hx
    rfl
  | real v hv =>
    cases hx
    by_cases hneg : q < 0
    · rw [Binary64.abs, signBit, if_pos (decide_eq_true hneg), toRat?_neg, abs_of_neg hneg]
      rfl
    · rw [Binary64.abs, signBit, if_neg (by simpa using hneg), abs_of_nonneg (not_lt.mp hneg)]
      rfl

/-- **A sum is exact if it is representable.** -/
theorem toRat?_add (hx : x.toRat? = some q) (hy : y.toRat? = some r) (h : Representable (q + r)) :
    (x + y).toRat? = some (q + r) := by
  show (Binary64.add x y).toRat? = _
  cases x with
  | nan | infinity => cases hx
  | negZero =>
    cases hx
    rw [zero_add]
    cases y with
    | nan | infinity => cases hy
    | negZero | real => exact hy
  | real v hv =>
    cases hx
    cases y with
    | nan | infinity => cases hy
    | negZero =>
      cases hy
      rw [add_zero]
      rfl
    | real w hw =>
      cases hy
      rw [Binary64.add]
      split
      · next hzero => rw [hzero]; rfl
      · exact toRat?_ofRat h

theorem toRat?_sub (hx : x.toRat? = some q) (hy : y.toRat? = some r) (h : Representable (q - r)) :
    (x - y).toRat? = some (q - r) := by
  rw [sub_eq_add_neg] at h ⊢
  exact toRat?_add hx ((toRat?_neg y).trans (congrArg (Option.map (- ·)) hy)) h

/-- **A product is exact if it is representable.** -/
theorem toRat?_mul (hx : x.toRat? = some q) (hy : y.toRat? = some r) (h : Representable (q * r)) :
    (x * y).toRat? = some (q * r) := by
  show (Binary64.mul x y).toRat? = _
  cases x with
  | nan | infinity => cases hx
  | negZero =>
    cases hx
    rw [zero_mul]
    cases y with
    | nan | infinity => cases hy
    | negZero | real => exact toRat?_zeroOfSign _
  | real v hv =>
    cases hx
    cases y with
    | nan | infinity => cases hy
    | negZero =>
      cases hy
      rw [mul_zero]
      exact toRat?_zeroOfSign _
    | real w hw =>
      cases hy
      rw [Binary64.mul]
      split
      · next hzero => rw [hzero]; exact toRat?_zeroOfSign _
      · exact toRat?_ofRat h

/-! ## Rounding to whole numbers -/

/-- **Rounding gives the nearest whole number exactly**, and the distance from it can be computed
exactly as well. -/
theorem exists_nearest (hx : x.toRat? = some q) :
    ∃ n : Int, Nearest q n ∧ x.roundHalfAway.toRat? = some (n : Rat)
      ∧ (x - x.roundHalfAway).abs.toRat? = some |q - n| := by
  obtain ⟨n, hn, hround⟩ : ∃ n : Int, Nearest q n ∧ x.roundHalfAway.toRat? = some (n : Rat) := by
    cases x with
    | nan | infinity => cases hx
    | negZero =>
      cases hx
      exact ⟨0, .inl (by norm_num), rfl⟩
    | real v hv =>
      cases hx
      rcases lt_trichotomy q 0 with hneg | rfl | hpos
      · -- a negative number is rounded as its opposite is
        have hn : Nearest q (-(1 / 2 - q).floor) := by
          have hopposite : -q + 1 / 2 = 1 / 2 - q := neg_add_eq_sub q (1 / 2)
          have hfloor := (nearest_floor (neg_nonneg.mpr hneg.le)).neg
          rwa [hopposite, neg_neg] at hfloor
        refine ⟨_, hn, ?_⟩
        rw [roundHalfAway, if_pos hneg]
        simp only
        split
        · next hzero => rw [hzero]; rfl
        · exact toRat?_ofRat (hn.representable hv).1
      · exact ⟨0, .inl (by norm_num), rfl⟩
      · have hn := nearest_floor hpos.le
        refine ⟨_, hn, ?_⟩
        rw [roundHalfAway, if_neg hpos.not_gt, if_neg hpos.ne']
        exact toRat?_ofRat (hn.representable hv).1
  exact ⟨n, hn, hround,
    toRat?_abs (toRat?_sub hx hround (hn.representable (representable_of_toRat? hx)).2)⟩

/-- A whole number is rounded to itself. -/
theorem roundHalfAway_of_whole {n : Int} (hx : x.toRat? = some (n : Rat)) :
    x.roundHalfAway = x := by
  obtain ⟨m, hm, hround, -⟩ := exists_nearest hx
  rw [hm.eq_of_whole] at hround
  rcases eq_or_ne n 0 with rfl | hne
  · cases x with
    | nan | infinity | negZero => rfl
    | real v hv =>
      have hv : v = ((0 : Int) : Rat) := Option.some.inj hx
      rw [roundHalfAway, if_neg (by simp [hv]), if_pos (by simp [hv])]
  · exact eq_of_toRat? hround hx (Int.cast_ne_zero.mpr hne)

/-- **Rounding a second time changes nothing.** -/
theorem roundHalfAway_roundHalfAway (x : Binary64) :
    x.roundHalfAway.roundHalfAway = x.roundHalfAway := by
  cases hx : x.toRat? with
  | none =>
    cases x with
    | nan | infinity => rfl
    | _ => cases hx
  | some q =>
    obtain ⟨n, -, hround, -⟩ := exists_nearest hx
    exact roundHalfAway_of_whole hround

end Binary64

end LinearModel
