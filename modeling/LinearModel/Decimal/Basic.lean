/-!
# Decimals

A decimal is a natural number of digits and a power of ten. This module counts digits, finds the
leading digit of a rational and cuts a rational to a number of places; which digits are chosen for
a floating-point number stands in `Decimal/Shortest.lean`, how they are laid out in
`Decimal/Style.lean`.

## Termination

`digitCount` and `digitsOf` divide by ten, and `trim` does so while the last digit is a zero.
-/

namespace LinearModel

/-- `digits * 10 ^ exponent`. -/
structure Decimal where
  digits : Nat
  exponent : Int
  deriving DecidableEq, Repr

namespace Decimal

/-! ## Digits of a natural number -/

/-- The number of decimal digits of `n`, which is one for zero. -/
def digitCount (n : Nat) : Nat :=
  if n < 10 then 1 else digitCount (n / 10) + 1
termination_by n
decreasing_by exact Nat.div_lt_self (by omega) (by decide)

def digitChar (d : Nat) : Char := Char.ofNat (0x30 + d % 10)

/-- The digits of `n` in front of `rest`. -/
def prependDigits (n : Nat) (rest : List Char) : List Char :=
  if n < 10 then digitChar n :: rest else prependDigits (n / 10) (digitChar n :: rest)
termination_by n
decreasing_by exact Nat.div_lt_self (by omega) (by decide)

/-- The digits of `n`, most significant first; zero has one. -/
def digitsOf (n : Nat) : List Char := prependDigits n []

/-! ## Powers of ten and the leading digit -/

/-- `10 ^ e`, for exponents of either sign. -/
def pow10 (e : Int) : Rat :=
  if 0 ≤ e then mkRat (Nat.pow 10 e.toNat) 1 else mkRat 1 (Nat.pow 10 (-e).toNat)

def toRat (d : Decimal) : Rat := d.digits * pow10 d.exponent

/-- The exponent of the leading digit of a positive rational: `10 ^ e ≤ v < 10 ^ (e + 1)`. -/
def leadingExponent (v : Rat) : Int :=
  let n := v.num.natAbs
  if v.den ≤ n then (digitCount (n / v.den) : Int) - 1
  else -(digitCount ((v.den - 1) / n) : Int)

/-- Zeros at the end of the digits go into the exponent. -/
def trim (digits : Nat) (exponent : Int) : Decimal :=
  if digits ≠ 0 ∧ digits % 10 = 0 then trim (digits / 10) (exponent + 1) else ⟨digits, exponent⟩
termination_by digits
decreasing_by exact Nat.div_lt_self (by omega) (by decide)

/-! ## A fixed number of places -/

/-- The text of a rational with exactly `places` digits after the point: the nearest such decimal,
and of two the one whose last digit is even. A value that rounds to zero has no sign. -/
def fixed (places : Nat) (v : Rat) : String :=
  let scaled := v.num.natAbs * Nat.pow 10 places
  let q := scaled / v.den
  let r := scaled % v.den
  let n := if 2 * r < v.den then q else if v.den < 2 * r then q + 1 else q + q % 2
  let digits := digitsOf n
  let padded := List.replicate (places + 1 - digits.length) '0' ++ digits
  let whole := padded.take (padded.length - places)
  let fraction := padded.drop (padded.length - places)
  String.ofList ((if v < 0 ∧ n ≠ 0 then ['-'] else []) ++ whole
    ++ (if places = 0 then [] else '.' :: fraction))

end Decimal

end LinearModel
