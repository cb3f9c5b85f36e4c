import LinearModel.Decimal.Style
import LinearModel.Json.Value

/-!
# Writing JSON

Values are written without blanks. In a string only the quote, the backslash and the control
characters are escaped. Numbers are laid out by `Decimal.json`, which has `null` for those that
JSON cannot spell.
-/

namespace LinearModel.Json

/-! ## Strings -/

/-- The small hexadecimal digit of a number below sixteen. -/
def hexDigit (n : Nat) : Char := Char.ofNat (if n < 10 then 0x30 + n else 0x61 + n - 10)

def escape (c : Char) : List Char :=
  if c = '"' then ['\\', '"']
  else if c = '\\' then ['\\', '\\']
  else if c = '\x08' then ['\\', 'b']
  else if c = '\x0c' then ['\\', 'f']
  else if c = '\n' then ['\\', 'n']
  else if c = '\r' then ['\\', 'r']
  else if c = '\t' then ['\\', 't']
  else if c.toNat < 0x20 then
    ['\\', 'u', '0', '0', hexDigit (c.toNat / 16), hexDigit (c.toNat % 16)]
  else [c]

/-- A string between its quotes. -/
def quoted (text : String) : List Char := '"' :: text.toList.flatMap escape ++ ['"']

/-! ## Values -/

/-- Texts with commas between them. -/
def separated (texts : List (List Char)) : List Char := (texts.intersperse [',']).flatten

mutual

/-- The characters of a value. -/
def Value.written : Value → List Char
  | .null => ['n', 'u', 'l', 'l']
  | .bool true => ['t', 'r', 'u', 'e']
  | .bool false => ['f', 'a', 'l', 's', 'e']
  | .number value => (Decimal.json.render value).toList
  | .string text => quoted text
  | .array items => '[' :: separated (writtenItems items) ++ [']']
  | .object members => '\x7b' :: separated (writtenMembers members) ++ ['\x7d']

def writtenItems : List Value → List (List Char)
  | [] => []
  | item :: rest => item.written :: writtenItems rest

def writtenMembers : List (String × Value) → List (List Char)
  | [] => []
  | (key, value) :: rest => (quoted key ++ ':' :: value.written) :: writtenMembers rest

end

def Value.text (value : Value) : String := String.ofList value.written

end LinearModel.Json
