/-!
# Binary floating-point numbers of 64 bits

The numbers of a model are those of the 64-bit binary format: a value is kept as the exact
rational that it denotes, beside the five values that denote none or share one (not-a-number, the
two infinities and the negative zero).

## Rounding

An operation is computed exactly over the rationals and rounded once (`ofRat`), to the nearest
representable value and to the even one of two. Everything is counted in units of `2 ^ -1074`, the
least positive value: a rational is first written as a quotient of naturals in these units, `k` of
its binary places are dropped so that at most 53 remain, and the quotient is rounded there.
`roundDiv_le` bounds the result, so what `ofRat` builds is representable by construction.
-/

namespace LinearModel

/-- How many times the least positive value goes into one. -/
def unitsPerOne : Nat := Nat.pow 2 1074

/-- The units of `2 ^ 1024`, which is the first size that is too large. -/
def unitLimit : Nat := Nat.pow 2 2098

theorem unitLimit_pos : 0 < unitLimit := by decide +kernel

attribute [irreducible] unitsPerOne unitLimit

/-- `v` is a whole number of at most 53 binary digits (or `2 ^ 53` itself) times a power of two
that is no less than `2 ^ -1074`, and lies below `2 ^ 1024` in size. -/
def Representable (v : Rat) : Prop :=
  ∃ (m : Int) (k : Nat), m.natAbs ≤ Nat.pow 2 53 ∧ m.natAbs * Nat.pow 2 k < unitLimit
    ∧ v = mkRat (m * Nat.pow 2 k) unitsPerOne

theorem Representable.zero : Representable 0 :=
  ⟨0, 0, Nat.zero_le _, by simpa using unitLimit_pos, by simp⟩

theorem Representable.neg {v : Rat} (h : Representable v) : Representable (-v) := by
  obtain ⟨m, k, hm, hk, rfl⟩ := h
  refine ⟨-m, k, by simpa using hm, by simpa using hk, ?_⟩
  rw [Rat.neg_mkRat, Int.neg_mul]

/-- A number of the 64-bit binary format. The positive zero is `real 0`. -/
inductive Binary64 where
  | nan
  | infinity (negative : Bool)
  | negZero
  | real (value : Rat) (representable : Representable value)
  deriving DecidableEq

namespace Binary64

/-! ## Constants and the exact value -/

def zero : Binary64 := .real 0 .zero

instance : Inhabited Binary64 := ⟨zero⟩

/-- The rational that a finite number denotes. -/
def toRat? : Binary64 → Option Rat
  | nan | infinity _ => none
  | negZero => some 0
  | real v _ => some v

def isFinite (x : Binary64) : Bool := x.toRat?.isSome

/-- Both zeros are zero, and nothing else is. -/
def isZero (x : Binary64) : Bool := x.toRat? == some 0

/-- The sign bit; not-a-number carries none. -/
def signBit : Binary64 → Bool
  | nan => false
  | infinity s => s
  | negZero => true
  | real v _ => decide (v < 0)

def zeroOfSign (negative : Bool) : Binary64 := if negative then negZero else zero

/-! ## Rounding a rational -/

/-- The quotient of two naturals, rounded to the nearest one and to the even one of two. -/
def roundDiv (num den : Nat) : Nat :=
  let q := num / den
  let r := num % den
  if 2 * r < den then q else if den < 2 * r then q + 1 else q + q % 2

theorem roundDiv_le {num den b : Nat} (hd : 0 < den) (h : num ≤ b * den) :
    roundDiv num den ≤ b := by
  have hq : num / den ≤ b := by
    rw [Nat.div_le_iff_le_mul_add_pred hd, Nat.mul_comm]; omega
  have hsum : den * (num / den) + num % den = num := Nat.div_add_mod num den
  rcases Nat.lt_or_eq_of_le hq with hlt | heq
  · have : num / den + num / den % 2 ≤ num / den + 1 := by omega
    unfold roundDiv
    simp only
    split
    · omega
    · split <;> omega
  · have hr : num % den = 0 := by
      rw [heq, Nat.mul_comm den b] at hsum; omega
    unfold roundDiv
    simp only [hr, heq, Nat.mul_zero, hd, if_true]
    exact Nat.le_refl b

/-- The number of binary places, in units of `2 ^ -1074`, that do not fit into 53. -/
def excessPlaces (num den : Nat) : Nat := (num / den).log2 - 52

theorem lt_shift_excessPlaces {num den : Nat} (hd : 0 < den) :
    num ≤ Nat.pow 2 53 * (den * Nat.pow 2 (excessPlaces num den)) := by
  have h1 : num / den < 2 ^ ((num / den).log2 + 1) := Nat.lt_log2_self
  have h2 : 2 ^ ((num / den).log2 + 1) ≤ 2 ^ (53 + excessPlaces num den) :=
    Nat.pow_le_pow_right (by decide) (by unfold excessPlaces; omega)
  have h3 : num < den * 2 ^ (53 + excessPlaces num den) := by
    rw [Nat.mul_comm]
    exact (Nat.div_lt_iff_lt_mul hd).mp (Nat.lt_of_lt_of_le h1 h2)
  rw [Nat.pow_add] at h3
  calc num ≤ den * (2 ^ 53 * 2 ^ excessPlaces num den) := Nat.le_of_lt h3
    _ = 2 ^ 53 * (den * 2 ^ excessPlaces num den) := by
      rw [← Nat.mul_assoc, Nat.mul_comm den, Nat.mul_assoc]

/-- The number of size `m * 2 ^ k` units, or an infinity where that is too large. -/
def ofUnits (negative : Bool) (m k : Nat) (hm : m ≤ Nat.pow 2 53) : Binary64 :=
  if h : m * Nat.pow 2 k < unitLimit then
    if m = 0 then zeroOfSign negative
    else if negative then
      .real (mkRat (-(m : Int) * Nat.pow 2 k) unitsPerOne)
        ⟨-m, k, by simpa using hm, by simpa using h, rfl⟩
    else
      .real (mkRat ((m : Int) * Nat.pow 2 k) unitsPerOne)
        ⟨m, k, by simpa using hm, by simpa using h, rfl⟩
  else .infinity negative

/-- The number nearest to `v`, and the even one of two equally near. What is too small keeps its
sign as a zero, and what is too large becomes an infinity. -/
def ofRat (v : Rat) : Binary64 :=
  let num := v.num.natAbs * unitsPerOne
  let k := excessPlaces num v.den
  ofUnits (decide (v < 0)) (roundDiv num (v.den * Nat.pow 2 k)) k
    (roundDiv_le (Nat.mul_pos v.den_pos (Nat.two_pow_pos k)) (lt_shift_excessPlaces v.den_pos))

def ofInt (n : Int) : Binary64 := ofRat n

def ofNat (n : Nat) : Binary64 := ofRat n

/-! ## Arithmetic -/

protected def neg : Binary64 → Binary64
  | nan => nan
  | infinity s => infinity !s
  | negZero => zero
  | real v h => if v = 0 then negZero else real (-v) h.neg

instance : Neg Binary64 := ⟨Binary64.neg⟩

protected def abs (x : Binary64) : Binary64 := if x.signBit then -x else x

/-- The exact sum, rounded once. Opposite infinities have none, and a sum that is zero is positive
unless both terms are the negative zero. -/
protected def add (x y : Binary64) : Binary64 :=
  match x, y with
  | nan, _ | _, nan => nan
  | infinity s, infinity t => if s = t then infinity s else nan
  | infinity s, _ | _, infinity s => infinity s
  | negZero, negZero => negZero
  | negZero, real v h | real v h, negZero => real v h
  | real v _, real w _ => if v + w = 0 then zero else ofRat (v + w)

instance : Add Binary64 := ⟨Binary64.add⟩

instance : Sub Binary64 := ⟨fun x y => x + -y⟩

/-- The exact product, rounded once; its sign is that of the factors even where it is zero. -/
protected def mul (x y : Binary64) : Binary64 :=
  let negative := x.signBit != y.signBit
  match x, y with
  | nan, _ | _, nan => nan
  | infinity _, infinity _ => infinity negative
  | infinity _, z | z, infinity _ => if z.isZero then nan else infinity negative
  | negZero, _ | _, negZero => zeroOfSign negative
  | real v _, real w _ => if v * w = 0 then zeroOfSign negative else ofRat (v * w)

instance : Mul Binary64 := ⟨Binary64.mul⟩

/-- The exact quotient, rounded once. A non-zero number over zero is infinite. -/
protected def div (x y : Binary64) : Binary64 :=
  let negative := x.signBit != y.signBit
  match x.toRat?, y.toRat? with
  | some v, some w =>
    if w = 0 then (if v = 0 then nan else infinity negative)
    else if v = 0 then zeroOfSign negative else ofRat (v / w)
  | some _, none => if y = nan then nan else zeroOfSign negative
  | none, some _ => if x = nan then nan else infinity negative
  | none, none => nan

instance : Div Binary64 := ⟨Binary64.div⟩

/-! ## Order

The comparisons are those of the denoted values, with the infinities at the ends; nothing compares
with not-a-number, and the two zeros are equal. -/

protected def le (x y : Binary64) : Bool :=
  match x, y with
  | nan, _ | _, nan => false
  | infinity true, _ | _, infinity false => true
  | infinity false, _ | _, infinity true => false
  | x, y => decide (x.toRat?.getD 0 ≤ y.toRat?.getD 0)

instance : LE Binary64 := ⟨fun x y => x.le y = true⟩

instance (x y : Binary64) : Decidable (x ≤ y) := inferInstanceAs (Decidable (x.le y = true))

/-! ## Whole numbers -/

/-- The nearest whole number; a half goes away from zero, and the sign is kept at zero. -/
def roundHalfAway : Binary64 → Binary64
  | real v h =>
    if v < 0 then
      let n := (1 / 2 - v).floor
      if n = 0 then negZero else ofInt (-n)
    else if v = 0 then real v h
    else ofInt (v + 1 / 2).floor
  | x => x

/-- The values of a signed 32-bit integer. -/
def minInt32 : Int := -2147483648
def maxInt32 : Int := 2147483647

/-- The whole number that `rounding` gives, brought into the range of a signed 32-bit integer.
Not-a-number counts as zero. -/
def toInt32 (rounding : Rat → Int) : Binary64 → Int
  | nan => 0
  | infinity s => if s then minInt32 else maxInt32
  | negZero => 0
  | real v _ => max minInt32 (min maxInt32 (rounding v))

end Binary64

end LinearModel
