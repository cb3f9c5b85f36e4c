import LinearModel.Binary64.Basic

/-!
# Literals of a JSON text

A literal is kept as it is spelled, so that reading a text and understanding its literals are two
things: a text can be well formed although a literal in it stands for nothing, which matters only
where the literal is used.

## Strings

An escape of four digits names a 16-bit unit. Units outside the surrogate range are characters by
themselves; a high surrogate has to be followed directly by a low one, and no other surrogate
stands for anything.

## Numbers

The digits of a number are taken into a significand as long as it stays below `2 ^ 64`. Further
digits in front of the point count with their place only, and those behind it not at all. The
significand is rounded to a binary number, which is then multiplied or divided by a power of ten
and rounded once more; a power beyond `10 ^ 308` is divided by in two steps. A number too large
for 64 bits has no value, and one that is too small is zero.
-/

namespace LinearModel.Json

/-! ## Strings -/

/-- A part of a string literal: a character, or a 16-bit unit given by its number. -/
inductive StringPiece where
  | plain (c : Char)
  | unit (code : Nat)
  deriving DecidableEq, Repr

/-- What stands between the quotes of a string. -/
abbrev StringLiteral := List StringPiece

def isHighSurrogate (code : Nat) : Bool := 0xD800 ≤ code && code < 0xDC00

def isLowSurrogate (code : Nat) : Bool := 0xDC00 ≤ code && code < 0xE000

/-- The character beyond the 16-bit range that a pair of surrogates names. -/
def pairedChar (high low : Nat) : Char :=
  Char.ofNat (0x10000 + (high - 0xD800) * 0x400 + (low - 0xDC00))

namespace StringLiteral

/-- The characters that the literal stands for. -/
def chars? : StringLiteral → Option (List Char)
  | [] => some []
  | .plain c :: rest => (chars? rest).map (c :: ·)
  | .unit code :: rest =>
    if isHighSurrogate code then
      match rest with
      | .unit low :: tail =>
        if isLowSurrogate low then (chars? tail).map (pairedChar code low :: ·) else none
      | _ => none
    else if isLowSurrogate code then none
    else (chars? rest).map (Char.ofNat code :: ·)

def text? (literal : StringLiteral) : Option String := (chars? literal).map String.ofList

end StringLiteral

/-! ## Numbers -/

/-- The spelling of a number: its digits before and behind the point, and the power of ten written
after them. A number without a point has no digits behind it. -/
structure NumberLiteral where
  negative : Bool
  whole : List Nat
  fraction : List Nat
  exponent : Option Int
  deriving DecidableEq, Repr

namespace NumberLiteral

/-- Appends digits to a significand as long as it stays below `2 ^ 64`, and counts the digits that
are left over. -/
def absorb (significand : Nat) : List Nat → Nat × Nat
  | [] => (significand, 0)
  | digit :: rest =>
    if significand * 10 + digit < UInt64.size then absorb (significand * 10 + digit) rest
    else (significand, rest.length + 1)

def tenTo (places : Nat) : Binary64 := .ofNat (Nat.pow 10 places)

/-- The significand times a power of ten, rounded after each step. -/
def scale? (significand : Nat) (exponent : Int) : Option Binary64 :=
  let base := Binary64.ofNat significand
  if 0 ≤ exponent then
    if exponent ≤ 308 then
      let size := base * tenTo exponent.toNat
      if size.isFinite then some size else none
    else if significand = 0 then some .zero
    else none
  else
    let places := (-exponent).toNat
    if places ≤ 308 then some (base / tenTo places)
    else if places ≤ 616 then some (base / tenTo 308 / tenTo (places - 308))
    else some .zero

/-- The number that the literal stands for. -/
def value? (literal : NumberLiteral) : Option Binary64 :=
  let (whole, leftOver) := absorb 0 literal.whole
  let (significand, dropped) := absorb whole literal.fraction
  let places := literal.fraction.length - dropped
  let exponent := literal.exponent.getD 0 + (leftOver : Int) - (places : Int)
  (scale? significand exponent).map fun size => if literal.negative then -size else size

/-- The natural number below `2 ^ 64` that is spelled without sign, point and exponent. -/
def index? (literal : NumberLiteral) : Option Nat :=
  let number := literal.whole.foldl (fun n digit => n * 10 + digit) 0
  if literal.negative = false ∧ literal.fraction = [] ∧ literal.exponent = none
    ∧ number < UInt64.size then some number else none

end NumberLiteral

end LinearModel.Json
