import LinearModel.Json.Literal

/-!
# Tokens of a JSON text

A text is cut into tokens; blanks between them are passed over. Each function here takes a token
or a part of one off the front of the text and gives the rest with it. The forms are strict: no
sign but a minus, no zero in front of another digit, at least one digit on either side of a point,
and no control character in a string.

## Termination

`scan` goes on with the rest that `next?` leaves, which is shorter (`length_lt_of_next?`). All
else is structural.
-/

namespace LinearModel.Json

inductive Token where
  | leftBrace
  | rightBrace
  | leftBracket
  | rightBracket
  | colon
  | comma
  | null
  | bool (value : Bool)
  | string (literal : StringLiteral)
  | number (literal : NumberLiteral)
  deriving DecidableEq, Repr

namespace Token

/-! ## Strings -/

def hexDigit? (c : Char) : Option Nat :=
  if '0' ≤ c ∧ c ≤ '9' then some (c.toNat - '0'.toNat)
  else if 'a' ≤ c ∧ c ≤ 'f' then some (c.toNat - 'a'.toNat + 10)
  else if 'A' ≤ c ∧ c ≤ 'F' then some (c.toNat - 'A'.toNat + 10)
  else none

/-- The unit that four digits name. -/
def unit? (a b c d : Char) : Option Nat := do
  return (((← hexDigit? a) * 16 + (← hexDigit? b)) * 16 + (← hexDigit? c)) * 16 + (← hexDigit? d)

/-- The character that an escape of one letter stands for. -/
def escaped? (c : Char) : Option Char :=
  if c = '"' ∨ c = '\\' ∨ c = '/' then some c
  else if c = 'b' then some '\x08'
  else if c = 'f' then some '\x0c'
  else if c = 'n' then some '\n'
  else if c = 'r' then some '\r'
  else if c = 't' then some '\t'
  else none

/-- One more piece at the front of a literal, if there is both. -/
def withPiece (piece : Option StringPiece) (read : Option (StringLiteral × List Char)) :
    Option (StringLiteral × List Char) :=
  match piece, read with
  | some piece, some (pieces, rest) => some (piece :: pieces, rest)
  | _, _ => none

/-- The pieces of a string up to its closing quote. -/
def stringBody? : List Char → Option (StringLiteral × List Char)
  | [] => none
  | '"' :: rest => some ([], rest)
  | '\\' :: 'u' :: a :: b :: c :: d :: rest =>
    withPiece ((unit? a b c d).map .unit) (stringBody? rest)
  | '\\' :: c :: rest => withPiece ((escaped? c).map .plain) (stringBody? rest)
  | c :: rest =>
    if c.toNat < 0x20 ∨ c = '\\' then none else withPiece (some (.plain c)) (stringBody? rest)

theorem eq_some_of_withPiece {piece : Option StringPiece}
    {read : Option (StringLiteral × List Char)} {literal : StringLiteral} {rest : List Char}
    (h : withPiece piece read = some (literal, rest)) : ∃ pieces, read = some (pieces, rest) := by
  unfold withPiece at h
  split at h
  · next p pieces r =>
    simp only [Option.some.injEq, Prod.mk.injEq] at h
    exact ⟨pieces, by rw [h.2]⟩
  · cases h

theorem length_lt_of_stringBody? {text : List Char} {literal : StringLiteral} {rest : List Char}
    (h : stringBody? text = some (literal, rest)) : rest.length < text.length := by
  fun_induction stringBody? text generalizing literal with
  | case1 => cases h
  | case2 tail =>
    simp only [Option.some.injEq, Prod.mk.injEq] at h
    simp [h.2]
  | case3 a b c d tail ih =>
    obtain ⟨pieces, hp⟩ := eq_some_of_withPiece h
    have := ih hp
    simp only [List.length_cons]
    omega
  | case4 c tail _ ih =>
    obtain ⟨pieces, hp⟩ := eq_some_of_withPiece h
    have := ih hp
    simp only [List.length_cons]
    omega
  | case5 => cases h
  | case6 c tail _ _ _ _ ih =>
    obtain ⟨pieces, hp⟩ := eq_some_of_withPiece h
    have := ih hp
    simp only [List.length_cons]
    omega

/-! ## Numbers -/

def digitValue (c : Char) : Nat := c.toNat - '0'.toNat

/-- The digits at the front. -/
def digits (text : List Char) : List Nat × List Char :=
  ((text.takeWhile Char.isDigit).map digitValue, text.dropWhile Char.isDigit)

theorem length_digits (text : List Char) :
    (digits text).1.length + (digits text).2.length = text.length := by
  unfold digits
  rw [List.length_map, ← List.length_append, List.takeWhile_append_dropWhile]

/-- At least one digit. -/
def someDigits? (text : List Char) : Option (List Nat × List Char) :=
  match digits text with
  | ([], _) => none
  | read => some read

/-- The digits before the point. -/
def wholePart? (text : List Char) : Option (List Nat × List Char) :=
  match digits text with
  | ([], _) => none
  | (0 :: _ :: _, _) => none
  | read => some read

/-- The point and the digits behind it, if there is a point. -/
def fractionPart? : List Char → Option (List Nat × List Char)
  | '.' :: rest => someDigits? rest
  | text => some ([], text)

def sign : List Char → Bool × List Char
  | '-' :: rest => (true, rest)
  | '+' :: rest => (false, rest)
  | text => (false, text)

def exponentValue (negative : Bool) (read : List Nat) : Int :=
  let size : Nat := read.foldl (fun n digit => n * 10 + digit) 0
  if negative then -(size : Int) else size

/-- The exponent, if there is one. -/
def exponentPart? : List Char → Option (Option Int × List Char)
  | c :: rest =>
    if c = 'e' ∨ c = 'E' then
      match someDigits? (sign rest).2 with
      | none => none
      | some (read, tail) => some (some (exponentValue (sign rest).1 read), tail)
    else some (none, c :: rest)
  | [] => some (none, [])

/-- A number without its sign. -/
def unsigned? (negative : Bool) (text : List Char) : Option (NumberLiteral × List Char) :=
  match wholePart? text with
  | none => none
  | some (whole, afterWhole) =>
    match fractionPart? afterWhole with
    | none => none
    | some (fraction, afterFraction) =>
      match exponentPart? afterFraction with
      | none => none
      | some (exponent, rest) => some (⟨negative, whole, fraction, exponent⟩, rest)

def number? : List Char → Option (NumberLiteral × List Char)
  | '-' :: rest => unsigned? true rest
  | text => unsigned? false text

theorem length_lt_of_wholePart? {text : List Char} {whole : List Nat} {rest : List Char}
    (h : wholePart? text = some (whole, rest)) : rest.length < text.length := by
  have hlen := length_digits text
  unfold wholePart? at h
  split at h
  · cases h
  · cases h
  · next read hne _ =>
    cases hd : digits text with
    | mk first tail =>
      rw [hd] at hlen h
      simp only [Option.some.injEq, Prod.mk.injEq] at h
      obtain ⟨_, rfl⟩ := h
      cases first with
      | nil => exact absurd hd (hne tail)
      | cons d ds =>
        simp only [List.length_cons] at hlen
        omega

theorem length_le_of_someDigits? {text : List Char} {read : List Nat} {rest : List Char}
    (h : someDigits? text = some (read, rest)) : rest.length ≤ text.length := by
  have hlen := length_digits text
  unfold someDigits? at h
  split at h
  · cases h
  · simp only [Option.some.injEq] at h
    rw [h] at hlen
    simp only at hlen
    omega

theorem length_le_of_fractionPart? {text : List Char} {fraction : List Nat} {rest : List Char}
    (h : fractionPart? text = some (fraction, rest)) : rest.length ≤ text.length := by
  unfold fractionPart? at h
  split at h
  · have := length_le_of_someDigits? h
    simp only [List.length_cons]
    omega
  · simp only [Option.some.injEq, Prod.mk.injEq] at h
    exact Nat.le_of_eq (congrArg List.length h.2.symm)

theorem length_sign_le (text : List Char) : (sign text).2.length ≤ text.length := by
  unfold sign
  split <;> simp

theorem length_le_of_exponentPart? {text : List Char} {exponent : Option Int} {rest : List Char}
    (h : exponentPart? text = some (exponent, rest)) : rest.length ≤ text.length := by
  unfold exponentPart? at h
  split at h
  · next c tail =>
    split at h
    · split at h
      · cases h
      · next read after hd =>
        simp only [Option.some.injEq, Prod.mk.injEq] at h
        have h1 := length_le_of_someDigits? hd
        have h2 := length_sign_le tail
        rw [← h.2, List.length_cons]
        omega
    · simp only [Option.some.injEq, Prod.mk.injEq] at h
      exact Nat.le_of_eq (congrArg List.length h.2.symm)
  · simp only [Option.some.injEq, Prod.mk.injEq] at h
    exact Nat.le_of_eq (congrArg List.length h.2.symm)

theorem length_lt_of_unsigned? {negative : Bool} {text : List Char} {literal : NumberLiteral}
    {rest : List Char} (h : unsigned? negative text = some (literal, rest)) :
    rest.length < text.length := by
  unfold unsigned? at h
  split at h
  · cases h
  · next hw =>
    split at h
    · cases h
    · next hf =>
      split at h
      · cases h
      · next he =>
        simp only [Option.some.injEq, Prod.mk.injEq] at h
        have h1 := length_lt_of_wholePart? hw
        have h2 := length_le_of_fractionPart? hf
        have h3 := length_le_of_exponentPart? he
        rw [← h.2]
        omega

theorem length_lt_of_number? {text : List Char} {literal : NumberLiteral} {rest : List Char}
    (h : number? text = some (literal, rest)) : rest.length < text.length := by
  unfold number? at h
  split at h
  · have := length_lt_of_unsigned? h
    simp only [List.length_cons]
    omega
  · exact length_lt_of_unsigned? h

/-! ## Tokens -/

/-- The token at the front. -/
def next? : List Char → Option (Token × List Char)
  | '{' :: rest => some (.leftBrace, rest)
  | '}' :: rest => some (.rightBrace, rest)
  | '[' :: rest => some (.leftBracket, rest)
  | ']' :: rest => some (.rightBracket, rest)
  | ':' :: rest => some (.colon, rest)
  | ',' :: rest => some (.comma, rest)
  | 'n' :: 'u' :: 'l' :: 'l' :: rest => some (.null, rest)
  | 't' :: 'r' :: 'u' :: 'e' :: rest => some (.bool true, rest)
  | 'f' :: 'a' :: 'l' :: 's' :: 'e' :: rest => some (.bool false, rest)
  | '"' :: rest =>
    match stringBody? rest with
    | none => none
    | some (literal, tail) => some (.string literal, tail)
  | text =>
    match number? text with
    | none => none
    | some (literal, tail) => some (.number literal, tail)

theorem length_lt_of_next? {text : List Char} {token : Token} {rest : List Char}
    (h : next? text = some (token, rest)) : rest.length < text.length := by
  unfold next? at h
  split at h
  case h_10 =>
    split at h
    · cases h
    · next hs =>
      simp only [Option.some.injEq, Prod.mk.injEq] at h
      have := length_lt_of_stringBody? hs
      rw [← h.2, List.length_cons]
      omega
  case h_11 =>
    split at h
    · cases h
    · next hn =>
      simp only [Option.some.injEq, Prod.mk.injEq] at h
      rw [← h.2]
      exact length_lt_of_number? hn
  all_goals
    simp only [Option.some.injEq, Prod.mk.injEq] at h
    rw [← h.2]
    simp only [List.length_cons]
    omega

/-- Blanks between tokens. -/
def isBlank (c : Char) : Bool := c = ' ' || c = '\t' || c = '\n' || c = '\r'

/-- All tokens of a text. -/
def scan (text : List Char) : Option (List Token) :=
  match text with
  | [] => some []
  | c :: rest =>
    if isBlank c then scan rest
    else
      match _h : next? (c :: rest) with
      | none => none
      | some (token, tail) => (scan tail).map (token :: ·)
termination_by text.length
decreasing_by
  · exact Nat.lt_succ_self _
  · exact length_lt_of_next? _h

end Token

end LinearModel.Json
