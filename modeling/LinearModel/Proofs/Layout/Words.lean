import LinearModel.Proofs.Layout.Ranges
import Mathlib.Data.List.Basic

/-!
# Element counts in words

Counted in 64-bit words, products and sums wrap. A wrapped product divided by one of its factors is
not the other one, and a wrapped sum is less than what was added to. A count that stops where this
is seen is the count in natural numbers, so none of its products or sums has wrapped.

* `toNat_wordMul?`, `toNat_wordAdd?` — a product or sum that is not given up is the exact one
* `toNat_wordCount?` — the count of a shape in words is `checkedSize`
* `toNat_wordTotal?` — so is the count of the variables in front of a block and those of the block
-/

namespace LinearModel.Shape

/-! ## Products and sums of words -/

/-- The product of two words as it wraps, given up if the words show that it has wrapped. -/
def wordMul? (a b : UInt64) : Option UInt64 :=
  if b = 0 ∨ a * b / b = a then some (a * b) else none

/-- The sum of two words as it wraps, given up if the words show that it has wrapped. -/
def wordAdd? (a b : UInt64) : Option UInt64 := if a ≤ a + b then some (a + b) else none

/-- A wrapped product shows by division. -/
theorem mul_mod_div_eq_iff {a b : Nat} (hb : 0 < b) :
    a * b % UInt64.size / b = a ↔ a * b < UInt64.size := by
  constructor
  · intro hdiv
    by_contra hlarge
    have hmod : a * b % UInt64.size < a * b :=
      Nat.lt_of_lt_of_le (Nat.mod_lt _ (by decide)) (Nat.not_lt.mp hlarge)
    have hle : a * b ≤ a * b % UInt64.size := by
      conv_lhs => rw [← hdiv]
      exact Nat.div_mul_le_self _ _
    omega
  · intro hsmall
    rw [Nat.mod_eq_of_lt hsmall, Nat.mul_div_cancel _ hb]

theorem toNat_wordMul? (a b : UInt64) :
    (wordMul? a b).map UInt64.toNat = checkedMul a.toNat b.toNat := by
  have hcheck : (b = 0 ∨ a * b / b = a) ↔ a.toNat * b.toNat < UInt64.size := by
    by_cases hb : b = 0
    · simp [hb, UInt64.size]
    · have hpos : 0 < b.toNat := Nat.pos_of_ne_zero fun h => hb (UInt64.toNat_inj.mp h)
      rw [← mul_mod_div_eq_iff hpos, or_iff_right hb, ← UInt64.toNat_inj, UInt64.toNat_div,
        UInt64.toNat_mul]
  unfold wordMul? checkedMul
  by_cases hsmall : a.toNat * b.toNat < UInt64.size
  · rw [if_pos (hcheck.mpr hsmall), if_pos hsmall, Option.map_some, UInt64.toNat_mul]
    exact congrArg some (Nat.mod_eq_of_lt hsmall)
  · rw [if_neg (mt hcheck.mp hsmall), if_neg hsmall, Option.map_none]

theorem toNat_wordAdd? (a b : UInt64) :
    (wordAdd? a b).map UInt64.toNat
      = if a.toNat + b.toNat < UInt64.size then some (a.toNat + b.toNat) else none := by
  have ha := a.toNat_lt
  have hb := b.toNat_lt
  have hsum : (a + b).toNat = (a.toNat + b.toNat) % UInt64.size := UInt64.toNat_add a b
  have hcheck : a ≤ a + b ↔ a.toNat + b.toNat < UInt64.size := by
    rw [UInt64.le_iff_toNat_le, hsum]
    simp only [UInt64.size] at *
    omega
  unfold wordAdd?
  by_cases hsmall : a.toNat + b.toNat < UInt64.size
  · rw [if_pos (hcheck.mpr hsmall), if_pos hsmall, Option.map_some, hsum]
    exact congrArg some (Nat.mod_eq_of_lt hsmall)
  · rw [if_neg (mt hcheck.mp hsmall), if_neg hsmall, Option.map_none]

/-! ## Counts -/

/-- The most bytes that a signed word can count. -/
def byteLimit : UInt64 := .ofNat (UInt64.size / 2 - 1)

/-- The number of elements of a shape, if an array of so many, each of eight bytes, has no more
bytes than a signed word can count. -/
def wordCount? (dims : List UInt64) : Option UInt64 := do
  let length ← dims.foldlM wordMul? 1
  let bytes ← wordMul? length 8
  if bytes ≤ byteLimit then some length else none

/-- The number of all variables with so many more, if an array can hold them. -/
def wordTotal? (dimension length : UInt64) : Option UInt64 :=
  (wordAdd? dimension length).filter fun total => (wordCount? [total]).isSome

theorem toNat_foldlM_wordMul? (dims : List UInt64) (start : UInt64) :
    (dims.foldlM wordMul? start).map UInt64.toNat
      = (dims.map UInt64.toNat).foldlM checkedMul start.toNat := by
  induction dims generalizing start with
  | nil => rfl
  | cons dim rest ih =>
    rw [List.foldlM_cons, List.map_cons, List.foldlM_cons, ← toNat_wordMul?]
    cases wordMul? start dim with
    | none => rfl
    | some product => exact ih product

theorem wordMul?_eight_le_iff (length : UInt64) :
    (∃ bytes, wordMul? length 8 = some bytes ∧ bytes ≤ byteLimit)
      ↔ length.toNat ≤ elementLimit := by
  have hlimit : byteLimit.toNat = UInt64.size / 2 - 1 := by decide
  have hmul := toNat_wordMul? length 8
  unfold checkedMul at hmul
  constructor
  · rintro ⟨bytes, hbytes, hle⟩
    rw [hbytes] at hmul
    split at hmul
    · have hexact : bytes.toNat = length.toNat * 8 := Option.some.inj hmul
      rw [UInt64.le_iff_toNat_le, hexact, hlimit] at hle
      unfold elementLimit
      omega
    · cases hmul
  · intro hle
    unfold elementLimit at hle
    have hsmall : length.toNat * UInt64.toNat 8 < UInt64.size := by
      show length.toNat * 8 < UInt64.size
      simp only [UInt64.size] at *
      omega
    rw [if_pos hsmall] at hmul
    obtain ⟨bytes, hbytes, hexact⟩ := Option.map_eq_some_iff.mp hmul
    refine ⟨bytes, hbytes, ?_⟩
    rw [UInt64.le_iff_toNat_le, hexact, hlimit]
    show length.toNat * 8 ≤ _
    omega

/-- **Counted in words, a shape has as many elements as it has.** -/
theorem toNat_wordCount? (dims : List UInt64) :
    (wordCount? dims).map UInt64.toNat = checkedSize (dims.map UInt64.toNat) := by
  have hfold := toNat_foldlM_wordMul? dims 1
  unfold wordCount? checkedSize
  rw [show (1 : Nat) = UInt64.toNat 1 from rfl, ← hfold]
  cases dims.foldlM wordMul? 1 with
  | none => rfl
  | some length =>
    show (((wordMul? length 8).bind _).map _ : Option Nat)
      = if length.toNat ≤ elementLimit then _ else _
    by_cases hle : length.toNat ≤ elementLimit
    · obtain ⟨bytes, hbytes, hlimit⟩ := (wordMul?_eight_le_iff length).mpr hle
      rw [hbytes, Option.bind_some, if_pos hlimit, if_pos hle]
      rfl
    · rw [if_neg hle]
      cases hbytes : wordMul? length 8 with
      | none => rfl
      | some bytes =>
        have hlarge : ¬ bytes ≤ byteLimit := fun h =>
          hle ((wordMul?_eight_le_iff length).mp ⟨bytes, hbytes, h⟩)
        rw [Option.bind_some, if_neg hlarge]
        rfl

/-- As they wrap, the products would be 2 ^ 63, zero and zero. -/
example : wordCount? [9223372036854775808, 2, 3] = none := by decide

/-- Where no dimension is zero, the count is given up only if there are too many elements. -/
theorem checkedSize_eq_ite {s : Shape} (hpos : ∀ dim ∈ s, 0 < dim) :
    s.checkedSize = if elementLimit < s.prod then none else some s.prod := by
  rw [← size_eq_prod]
  by_cases hlarge : elementLimit < s.size
  · rw [if_pos hlarge]
    cases hcount : s.checkedSize with
    | none => rfl
    | some n =>
      obtain ⟨rfl, hle⟩ := checkedSize_eq_some hcount
      omega
  · rw [if_neg hlarge, checkedSize_eq_some_of_le hpos (Nat.not_lt.mp hlarge)]

theorem checkedSize_singleton (n : Nat) :
    checkedSize [n] = if n ≤ elementLimit then some n else none := by
  have hfold : [n].foldlM checkedMul 1 = if n < UInt64.size then some n else none := by
    rw [List.foldlM_cons, checkedMul, Nat.one_mul]
    split <;> rfl
  rw [checkedSize, hfold]
  by_cases hword : n < UInt64.size
  · rw [if_pos hword]
  · have hlarge : ¬ n ≤ elementLimit := fun h => hword (Nat.lt_of_le_of_lt h elementLimit_lt)
    rw [if_neg hword, if_neg hlarge]

/-- **Counted in words, all variables together are as many as they are.** -/
theorem toNat_wordTotal? (dimension length : UInt64) :
    (wordTotal? dimension length).map UInt64.toNat
      = checkedSize [dimension.toNat + length.toNat] := by
  have hsum := toNat_wordAdd? dimension length
  rw [wordTotal?, checkedSize_singleton]
  cases htotal : wordAdd? dimension length with
  | none =>
    rw [htotal] at hsum
    have hlarge : ¬ dimension.toNat + length.toNat ≤ elementLimit := by
      intro hle
      rw [if_pos (Nat.lt_of_le_of_lt hle elementLimit_lt)] at hsum
      cases hsum
    rw [if_neg hlarge]
    rfl
  | some total =>
    rw [htotal] at hsum
    have hexact : total.toNat = dimension.toNat + length.toNat := by
      split at hsum
      · exact Option.some.inj hsum
      · cases hsum
    have hcount : (wordCount? [total]).isSome ↔ total.toNat ≤ elementLimit := by
      rw [← Option.isSome_map (f := UInt64.toNat), toNat_wordCount?, List.map_singleton,
        checkedSize_singleton]
      split
      · next hle => exact iff_of_true rfl hle
      · next hlarge => exact iff_of_false (by rintro ⟨⟩) hlarge
    rw [← hexact]
    by_cases hle : total.toNat ≤ elementLimit
    · rw [Option.filter_some, if_pos (hcount.mpr hle), if_pos hle]
      rfl
    · rw [Option.filter_some, if_neg (mt hcount.mp hle), if_neg hle]
      rfl

end LinearModel.Shape
