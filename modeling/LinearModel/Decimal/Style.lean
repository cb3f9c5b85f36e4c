import LinearModel.Decimal.Shortest

/-!
# The layout of a floating-point number

`Decimal/Shortest.lean` chooses the digits of a number; a `Style` says how they are laid out:
which exponents are written positionally, whether a whole number keeps a `.0`, which of two
equally near decimals is taken, and what stands for the values that are no rationals. The two
styles of this library stand here as well, each with its rule.
-/

namespace LinearModel

namespace Decimal

/-- How the digits of a number are laid out. -/
structure Style where
  /-- A number whose leading digit has this exponent is written positionally. -/
  isPositional : Int → Bool
  /-- A whole number is written with a fraction of one zero. -/
  pointZero : Bool
  tie : Tie
  nan : String
  /-- The infinities, by their sign bit. -/
  infinity : Bool → String

/-! ## The three layouts -/

/-- Digits with the point in place and no exponent. -/
def positional (pointZero : Bool) (d : Decimal) : List Char :=
  let digits := digitsOf d.digits
  if 0 ≤ d.exponent then
    digits ++ List.replicate d.exponent.toNat '0' ++ (if pointZero then ['.', '0'] else [])
  else
    let places := (-d.exponent).toNat
    if places < digits.length then
      digits.take (digits.length - places) ++ '.' :: digits.drop (digits.length - places)
    else '0' :: '.' :: List.replicate (places - digits.length) '0' ++ digits

/-- One digit, the others after the point, and the exponent with its sign. -/
def scientific (d : Decimal) (leading : Int) : List Char :=
  let mantissa := match digitsOf d.digits with
    | [] => []
    | [c] => [c]
    | c :: rest => c :: '.' :: rest
  mantissa ++ 'e' :: (if leading < 0 then '-' else '+') :: digitsOf leading.natAbs

/-- The text of a positive value. -/
def layOut (style : Style) (v : Rat) : List Char :=
  let d := shortest style.tie v
  let leading := d.exponent + (digitCount d.digits : Int) - 1
  if style.isPositional leading then positional style.pointZero d else scientific d leading

/-- The text of a number. -/
def Style.render (style : Style) : Binary64 → String
  | .nan => style.nan
  | .infinity negative => style.infinity negative
  | .negZero => String.ofList ('-' :: positional style.pointZero ⟨0, 0⟩)
  | .real v _ =>
    if v = 0 then String.ofList (positional style.pointZero ⟨0, 0⟩)
    else if v < 0 then String.ofList ('-' :: layOut style (-v))
    else String.ofList (layOut style v)

/-! ## The styles -/

/-- Numbers in messages and in the text of a row: never an exponent, no fraction on a whole
number, and of two equally near decimals the larger. -/
def plain : Style where
  isPositional := fun _ => true
  pointZero := false
  tie := .up
  nan := "NaN"
  infinity := fun negative => if negative then "-inf" else "inf"

/-- Numbers in a JSON document: positional from `0.00001` up to sixteen digits before the point, a
fraction always shown, and of two equally near decimals the even one. There is no text for a value
that is no rational, so `null` stands for it. -/
def json : Style where
  isPositional := fun e => decide (-5 ≤ e ∧ e ≤ 15)
  pointZero := true
  tie := .even
  nan := "null"
  infinity := fun _ => "null"

end Decimal

/-- The plain text of a number. -/
def Binary64.text (x : Binary64) : String := Decimal.plain.render x

end LinearModel
