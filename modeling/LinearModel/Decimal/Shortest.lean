import LinearModel.Binary64.Basic
import LinearModel.Decimal.Basic

/-!
# The fewest digits that read back

A finite number is written with as few decimal digits as rounding needs to give it back. For each
count of digits, from one upward, only the two neighbours of the exact value on the decimal grid
of that many digits can qualify; the first grid with a hit decides, and of two hits the nearer
one. Where both are equally near the format has to say which (`Tie`).

Seventeen digits are enough for every number, so the list of counts ends there. Every finite
number is a whole count of `2 ^ -1074` and so has an exact decimal, which `shortest` would give
beyond it.
-/

namespace LinearModel

namespace Decimal

/-- Which of two equally near decimals is taken. -/
inductive Tie where
  | even
  | up
  deriving DecidableEq

/-- Rounding the decimal gives `v` back. -/
def readsBack (v : Rat) (d : Decimal) : Bool := (Binary64.ofRat d.toRat).toRat? == some v

/-- The decimals of `count` digits next to `v`, below and above. -/
def neighbours (v : Rat) (count : Nat) : Decimal × Decimal :=
  let exponent := leadingExponent v - (count : Int) + 1
  let below := (v / pow10 exponent).floor.toNat
  (⟨below, exponent⟩, ⟨below + 1, exponent⟩)

/-- Of two decimals around `v` the nearer one. -/
def nearer (tie : Tie) (v : Rat) (below above : Decimal) : Decimal :=
  let gap := (above.toRat - v) - (v - below.toRat)
  if 0 < gap then below
  else if gap < 0 then above
  else match tie with
    | .up => above
    | .even => if below.digits % 2 = 0 then below else above

/-- The neighbour of `v` among the decimals of `count` digits that reads back, if there is one. -/
def ofCount? (tie : Tie) (v : Rat) (count : Nat) : Option Decimal :=
  let (below, above) := neighbours v count
  match readsBack v below, readsBack v above with
  | true, true => some (nearer tie v below above)
  | true, false => some below
  | false, true => some above
  | false, false => none

/-- The shortest decimal that reads back as the positive value `v`. -/
def shortest (tie : Tie) (v : Rat) : Decimal :=
  match (List.range' 1 17).findSome? (ofCount? tie v) with
  | some d => trim d.digits d.exponent
  | none => trim (v * pow10 1074).floor.toNat (-1074)

end Decimal

end LinearModel
