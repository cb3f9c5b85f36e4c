import LinearModel.Configuration
import Mathlib.Algebra.Order.Ring.Rat
import Mathlib.Data.Nat.Log
import Mathlib.Data.Rat.Cast.Order
import Mathlib.Tactic.Linarith

/-!
# Numbers among the rationals

A finite number stands where its exact value is, the infinities stand at the ends, and not-a-number
stands nowhere. Comparing two numbers, rounding one to a whole number and making a 32-bit integer of
it are read off these places.

* `le_iff_exact`, `le_of_below_of_above` — the order of numbers is that of the rationals
* `toRat?_ofRat` — representable numbers are not rounded
* `exact_ofInt` — in particular whole numbers of at most 53 binary digits
* `roundHalfAway_between` — rounding does not leave a range between whole numbers
* `toInt32_ceil_le_iff`, `le_toInt32_floor_iff` — what the saturating conversions give
-/

namespace LinearModel.Binary64

/-! ## Places -/

/-- The rational that a finite number denotes; the other numbers count as zero. -/
def exact (x : Binary64) : Rat := x.toRat?.getD 0

theorem exact_of_isZero {x : Binary64} (h : x.isZero = true) : x.exact = 0 := by
  rw [exact, eq_of_beq h]
  rfl

theorem toRat?_neg (x : Binary64) : (-x).toRat? = x.toRat?.map (- ·) := by
  show (Binary64.neg x).toRat? = _
  cases x with
  | nan | infinity => rfl
  | negZero => rfl
  | real v hv =>
    rw [Binary64.neg]
    split
    · next hzero => simp [hzero, toRat?]
    · rfl

theorem isFinite_neg (x : Binary64) : (-x).isFinite = x.isFinite := by
  rw [isFinite, toRat?_neg, Option.isSome_map, isFinite]

theorem exact_neg (x : Binary64) : (-x).exact = -x.exact := by
  rw [exact, toRat?_neg, exact]
  cases x.toRat? <;> simp

/-- The bound lies below the value; the infinities stand at the ends, and not-a-number nowhere. -/
def Below (bound : Binary64) (value : Rat) : Prop :=
  match bound with
  | .nan => False
  | .infinity negative => negative = true
  | bound => bound.exact ≤ value

/-- The bound lies above the value. -/
def Above (bound : Binary64) (value : Rat) : Prop :=
  match bound with
  | .nan => False
  | .infinity negative => negative = false
  | bound => value ≤ bound.exact

variable {x y : Binary64} {q : Rat}

theorem below_iff_exact (h : x.isFinite = true) : x.Below q ↔ x.exact ≤ q := by
  cases x with
  | nan => cases h
  | infinity negative => cases h
  | negZero => rfl
  | real v hv => rfl

theorem above_iff_exact (h : x.isFinite = true) : x.Above q ↔ q ≤ x.exact := by
  cases x with
  | nan => cases h
  | infinity negative => cases h
  | negZero => rfl
  | real v hv => rfl

/-! ## Order -/

theorem le_iff_exact (hx : x.isFinite = true) (hy : y.isFinite = true) :
    x ≤ y ↔ x.exact ≤ y.exact := by
  have hle : x ≤ y ↔ x.le y = true := Iff.rfl
  cases x with
  | nan => cases hx
  | infinity negative => cases hx
  | _ =>
    cases y with
    | nan => cases hy
    | infinity negative => cases hy
    | _ => simp only [hle, Binary64.le, exact, decide_eq_true_eq]

theorem le_of_below_of_above (hx : x.Below q) (hy : y.Above q) : x ≤ y := by
  cases x with
  | nan => cases hx
  | infinity negative =>
    cases hx
    cases y with
    | nan => cases hy
    | _ => rfl
  | _ =>
    cases y with
    | nan => cases hy
    | infinity negative => cases hy; rfl
    | _ =>
      refine (le_iff_exact rfl rfl).mpr ?_
      exact le_trans ((below_iff_exact rfl).mp hx) ((above_iff_exact rfl).mp hy)

/-! ## Numbers that are not rounded -/

theorem roundDiv_mul (q : Nat) {d : Nat} (hd : 0 < d) : roundDiv (q * d) d = q := by
  unfold roundDiv
  simp [hd]

/-- With fewer than 54 binary digits no place is dropped that holds one of them. -/
theorem excessPlaces_le {m den : Nat} (h : m < 2 ^ 53) (hden : 0 < den) (k : Nat) :
    excessPlaces (m * 2 ^ k * den) den ≤ k := by
  have hlt : (m * 2 ^ k).log2 < 53 + k ∨ m = 0 := by
    rcases Nat.eq_zero_or_pos m with hzero | hpos
    · exact .inr hzero
    · have hne : m * 2 ^ k ≠ 0 := (Nat.mul_pos hpos (Nat.two_pow_pos k)).ne'
      rw [Nat.log2_lt hne, Nat.pow_add]
      exact .inl (Nat.mul_lt_mul_of_pos_right h (Nat.two_pow_pos k))
  unfold excessPlaces
  rw [Nat.mul_div_cancel _ hden]
  rcases hlt with hlt | rfl
  · omega
  · simp

theorem exists_unitsPerOne_eq :
    ∃ p, unitsPerOne = Nat.pow 2 p ∧ Nat.pow 2 53 * Nat.pow 2 p < unitLimit :=
  ⟨1074, by decide +kernel, by decide +kernel⟩

theorem unitsPerOne_pos : 0 < unitsPerOne := by
  obtain ⟨p, hunits, -⟩ := exists_unitsPerOne_eq
  exact hunits ▸ Nat.two_pow_pos p

theorem toRat?_ofUnits {negative : Bool} {m k : Nat} (hm : m ≤ Nat.pow 2 53)
    (h : m * Nat.pow 2 k < unitLimit) :
    (ofUnits negative m k hm).toRat?
      = some (mkRat ((if negative then -(m : Int) else m) * Nat.pow 2 k) unitsPerOne) := by
  rw [ofUnits, dif_pos h]
  by_cases hzero : m = 0
  · subst hzero
    cases negative <;> simp [zeroOfSign, zero, toRat?]
  · rw [if_neg hzero]
    cases negative <;> rfl

/-- A representable number can be written with fewer than 54 binary digits. -/
theorem exists_lt_of_representable {v : Rat} (h : Representable v) :
    ∃ (m : Int) (k : Nat), m.natAbs < 2 ^ 53 ∧ m.natAbs * 2 ^ k < unitLimit
      ∧ v = mkRat (m * 2 ^ k) unitsPerOne := by
  obtain ⟨m, k, hm, hlimit, hv⟩ := h
  rcases Nat.lt_or_eq_of_le hm with hlt | heq
  · exact ⟨m, k, hlt, hlimit, by rw [hv]; norm_cast⟩
  · -- the only such number with more digits ends with a zero
    have hpow : Nat.pow 2 53 = 2 * 2 ^ 52 := by decide
    obtain ⟨half, rfl⟩ : ∃ half : Int, m = 2 * half := ⟨m / 2, by omega⟩
    have hhalf : (2 * half).natAbs = 2 * half.natAbs := by omega
    refine ⟨half, k + 1, by omega, ?_, ?_⟩
    · rw [hhalf, Nat.mul_comm 2, Nat.mul_assoc] at hlimit
      rwa [Nat.pow_succ']
    · rw [hv, Int.pow_succ', ← Int.mul_assoc, Int.mul_comm half]
      norm_cast

/-- The sign and the size make up the whole number. -/
theorem signed_natAbs {p : Prop} [Decidable p] {n : Int} (h : p ↔ n < 0) :
    (if decide p then -(n.natAbs : Int) else n.natAbs) = n := by
  by_cases hneg : n < 0
  · simp [h, hneg, abs_of_neg hneg]
  · simp [h, hneg, abs_of_nonneg (Int.not_lt.mp hneg)]

/-- **A representable number is not rounded.** -/
theorem toRat?_ofRat {v : Rat} (h : Representable v) : (ofRat v).toRat? = some v := by
  obtain ⟨m, k, hm, hlimit, hv⟩ := exists_lt_of_representable h
  have hdiv : v = ((m * 2 ^ k : Int) : Rat) / unitsPerOne := hv.trans (Rat.mkRat_eq_div _ _)
  have hunits : (0 : Rat) < unitsPerOne := Nat.cast_pos.mpr unitsPerOne_pos
  -- in units the number is whole
  have hnum : v.num.natAbs * unitsPerOne = m.natAbs * 2 ^ k * v.den := by
    have hcross : v.num * unitsPerOne = m * 2 ^ k * v.den := by
      rw [← Rat.mkRat_eq_iff v.den_nz unitsPerOne_pos.ne', Rat.mkRat_self, hv]
    simpa [Int.natAbs_mul, Int.natAbs_pow] using congrArg Int.natAbs hcross
  have hle := excessPlaces_le hm v.den_pos k
  rw [← hnum] at hle
  -- the places that are dropped hold nothing but zeros
  have hround : ∀ e ≤ k, roundDiv (v.num.natAbs * unitsPerOne) (v.den * Nat.pow 2 e) * Nat.pow 2 e
      = m.natAbs * 2 ^ k := by
    intro e he
    have hsplit : m.natAbs * 2 ^ k = m.natAbs * 2 ^ (k - e) * 2 ^ e := by
      rw [Nat.mul_assoc, ← Nat.pow_add, Nat.sub_add_cancel he]
    have hfactor : m.natAbs * 2 ^ k * v.den = m.natAbs * 2 ^ (k - e) * (v.den * 2 ^ e) := by
      rw [hsplit, Nat.mul_assoc _ (2 ^ e), Nat.mul_comm (2 ^ e)]
    rw [hnum, hfactor, hsplit]
    exact congrArg (· * 2 ^ e) (roundDiv_mul _ (Nat.mul_pos v.den_pos (Nat.two_pow_pos e)))
  have hsign : v < 0 ↔ m * 2 ^ k < 0 := by
    rw [hdiv, div_lt_iff₀ hunits, zero_mul]
    exact Int.cast_lt_zero
  have hsize : (m * 2 ^ k).natAbs = m.natAbs * 2 ^ k := by
    rw [Int.natAbs_mul, Int.natAbs_pow]
    rfl
  have hsigned := signed_natAbs hsign
  rw [hsize] at hsigned
  rw [ofRat, toRat?_ofUnits _ (lt_of_eq_of_lt (hround _ hle) hlimit)]
  generalize excessPlaces (v.num.natAbs * unitsPerOne) v.den = e at hle
  have hcast := congrArg (Nat.cast (R := Int)) (hround e hle)
  rw [Nat.cast_mul] at hcast
  rw [ite_mul, Int.neg_mul, hcast, hsigned, ← hv]

/-! ## Whole numbers -/

theorem representable_intCast {n : Int} (h : n.natAbs ≤ 2 ^ 53) : Representable n := by
  obtain ⟨p, hunits, hlimit⟩ := exists_unitsPerOne_eq
  refine ⟨n, p, h, lt_of_le_of_lt (Nat.mul_le_mul_right _ h) hlimit, ?_⟩
  rw [hunits, Rat.mkRat_eq_div]
  simp

/-- **A whole number of at most 53 binary digits is not rounded.** -/
theorem toRat?_ofInt {n : Int} (h : n.natAbs < 2 ^ 53) : (ofInt n).toRat? = some (n : Rat) :=
  toRat?_ofRat (representable_intCast h.le)

/-- The exact value of a whole number that is not rounded. -/
theorem exact_ofInt {n : Int} (h : n.natAbs < 2 ^ 53) : (ofInt n).exact = n := by
  rw [exact, toRat?_ofInt h]
  rfl

theorem isFinite_ofInt {n : Int} (h : n.natAbs < 2 ^ 53) : (ofInt n).isFinite = true := by
  rw [isFinite, toRat?_ofInt h]
  rfl

/-! ## Rounding to whole numbers -/

/-- The nearest whole number of a rational between two whole numbers lies between them. -/
theorem floor_add_half_between {v : Rat} {lo hi : Int} (hlo : (lo : Rat) ≤ v) (hhi : v ≤ hi) :
    lo ≤ (v + 1 / 2).floor ∧ (v + 1 / 2).floor ≤ hi := by
  constructor
  · rw [Rat.le_floor_iff]
    linarith
  · have hfloor : ((v + 1 / 2).floor : Rat) < hi + 1 := by
      have := Rat.floor_le (v + 1 / 2)
      linarith
    exact Int.lt_add_one_iff.mp (by exact_mod_cast hfloor)

theorem ofInt_between {n lo hi : Int} (hlo : lo ≤ n) (hhi : n ≤ hi) (hsmall : n.natAbs < 2 ^ 53) :
    (ofInt n).Above lo ∧ (ofInt n).Below hi := by
  have hfinite := isFinite_ofInt hsmall
  rw [above_iff_exact hfinite, below_iff_exact hfinite, exact_ofInt hsmall]
  exact ⟨by exact_mod_cast hlo, by exact_mod_cast hhi⟩

theorem negZero_between {lo hi : Int} (hlo : lo ≤ 0) (hhi : 0 ≤ hi) :
    negZero.Above lo ∧ negZero.Below hi := by
  rw [above_iff_exact rfl, below_iff_exact rfl]
  exact ⟨Int.cast_nonpos.mpr hlo, Int.cast_nonneg hhi⟩

/-- **Rounding does not leave a range between whole numbers.** -/
theorem roundHalfAway_between {lo hi : Int} (hlo : x.Above lo) (hhi : x.Below hi)
    (hsmall : ∀ n, lo ≤ n → n ≤ hi → n.natAbs < 2 ^ 53) :
    x.roundHalfAway.Above lo ∧ x.roundHalfAway.Below hi := by
  cases x with
  | nan => cases hlo
  | infinity negative => cases hlo.symm.trans hhi
  | negZero => exact ⟨hlo, hhi⟩
  | real v hv =>
    have hlower : (lo : Rat) ≤ v := hlo
    have hupper : v ≤ hi := hhi
    rcases lt_trichotomy v 0 with hneg | hzero | hpos
    · -- a negative number is rounded as its opposite is
      have hopposite : -v + 1 / 2 = 1 / 2 - v := neg_add_eq_sub v (1 / 2)
      obtain ⟨hge, hle⟩ : -hi ≤ (1 / 2 - v).floor ∧ (1 / 2 - v).floor ≤ -lo := by
        rw [← hopposite]
        exact floor_add_half_between (by push_cast; linarith) (by push_cast; linarith)
      rw [roundHalfAway, if_pos hneg]
      simp only
      split
      · exact negZero_between (by omega) (by omega)
      · exact ofInt_between (by omega) (by omega) (hsmall _ (by omega) (by omega))
    · rw [roundHalfAway, if_neg hzero.not_lt, if_pos hzero]
      exact ⟨hlo, hhi⟩
    · obtain ⟨hge, hle⟩ := floor_add_half_between hlower hupper
      rw [roundHalfAway, if_neg hpos.not_gt, if_neg hpos.ne']
      exact ofInt_between hge hle (hsmall _ hge hle)

/-! ## Saturating conversions -/

theorem toInt32_between (rounding : Rat → Int) (x : Binary64) :
    minInt32 ≤ x.toInt32 rounding ∧ x.toInt32 rounding ≤ maxInt32 := by
  have hends : minInt32 ≤ 0 ∧ (0 : Int) ≤ maxInt32 := by decide
  cases x with
  | infinity negative => cases negative <;> simp [toInt32] <;> omega
  | nan | negZero | real => simp only [toInt32]; omega

/-- **Rounded up and brought into 32 bits, a number is at most `k`** exactly if it lies below `k`
and `k` is not less than all such integers, or if `k` is at least the greatest of them. -/
theorem toInt32_ceil_le_iff (h : x ≠ nan) (k : Int) :
    x.toInt32 Rat.ceil ≤ k ↔ minInt32 ≤ k ∧ (x.Below k ∨ maxInt32 ≤ k) := by
  have hends : minInt32 ≤ 0 ∧ (0 : Int) ≤ maxInt32 := by decide
  cases x with
  | nan => exact absurd rfl h
  | infinity negative =>
    cases negative with
    | false => simp [toInt32, Below]; omega
    | true => simp [toInt32, Below]
  | negZero =>
    rw [below_iff_exact rfl, toInt32, show exact negZero = 0 from rfl, Int.cast_nonneg_iff]
    omega
  | real v hv =>
    rw [below_iff_exact rfl, toInt32, show exact (real v hv) = v from rfl, ← Rat.ceil_le_iff]
    omega

/-- **Rounded down and brought into 32 bits, a number is at least `k`** exactly if it lies above `k`
and `k` is not greater than all such integers, or if `k` is at most the least of them. -/
theorem le_toInt32_floor_iff (h : x ≠ nan) (k : Int) :
    k ≤ x.toInt32 Rat.floor ↔ k ≤ minInt32 ∨ k ≤ maxInt32 ∧ x.Above k := by
  have hends : minInt32 ≤ 0 ∧ (0 : Int) ≤ maxInt32 := by decide
  cases x with
  | nan => exact absurd rfl h
  | infinity negative =>
    cases negative with
    | false => simp [toInt32, Above]; omega
    | true => simp [toInt32, Above]
  | negZero =>
    rw [above_iff_exact rfl, toInt32, show exact negZero = 0 from rfl, Int.cast_nonpos]
    omega
  | real v hv =>
    rw [above_iff_exact rfl, toInt32, show exact (real v hv) = v from rfl, ← Rat.le_floor_iff]
    omega

/-- What is rounded up is not below the number, unless that is above all 32-bit integers. -/
theorem below_toInt32_ceil (h : x ≠ nan) (hmax : x.Below maxInt32) :
    x.Below (x.toInt32 Rat.ceil) := by
  rcases ((toInt32_ceil_le_iff h _).mp (le_refl _)).2 with hbelow | hge
  · exact hbelow
  · rwa [le_antisymm (toInt32_between Rat.ceil x).2 hge]

theorem above_toInt32_floor (h : x ≠ nan) (hmin : x.Above minInt32) :
    x.Above (x.toInt32 Rat.floor) := by
  rcases (le_toInt32_floor_iff h _).mp (le_refl _) with hle | ⟨-, habove⟩
  · rwa [le_antisymm hle (toInt32_between Rat.floor x).1]
  · exact habove

end LinearModel.Binary64
