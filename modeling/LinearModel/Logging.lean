import LinearModel.Text.Blank

/-!
# Switching on the log

Logging is switched on at most once. What is logged is said by a filter, a list of directives with
commas between them; where none is given, the environment may give one, and else nothing is
logged. The environment also chooses between two output formats. The filter is examined before the
format.
-/

namespace LinearModel.Logging

/-- What the environment says of the log. -/
structure Environment where
  filter : Option String
  format : Option String

inductive Format where
  | pretty
  | json
  deriving DecidableEq, Repr

inductive LoggingError where
  | invalidFilter
  | invalidFormat (text : String)
  deriving DecidableEq

def LoggingError.message : LoggingError → String
  | invalidFilter => "Invalid log filter"
  | invalidFormat text => s!"Invalid LPWRAP_LOG_FORMAT `{text}` (expected 'json' or 'pretty')"

/-! ## Filters -/

/-- The names of the levels and the numbers that stand for them; no level at all is every level.
-/
def levels : List String :=
  ["off", "error", "warn", "info", "debug", "trace", "0", "1", "2", "3", "4", "5", ""]

/-- The text with its ASCII capitals made small. -/
def small (text : String) : String := String.ofList (Text.toAsciiLower text.toList)

/-- The parts of a text between the occurrences of a character. -/
def parts (mark : Char) : List Char → List (List Char)
  | [] => [[]]
  | c :: rest =>
    if c = mark then [] :: parts mark rest
    else match parts mark rest with
      | [] => [[c]]
      | first :: others => (c :: first) :: others

/-- A directive is a level, a target, or a target with a level. -/
def isDirective (text : List Char) : Bool :=
  match parts '=' text with
  | [_] => true
  | [_, level] => small (String.ofList level) ∈ levels
  | _ => false

/-- A list of directives. -/
def isFilter (text : String) : Bool := (parts ',' text.toList).all isDirective

/-! ## Formats -/

def format? (text : String) : Option Format :=
  if small text = "json" then some .json
  else if small text = "pretty" then some .pretty
  else none

/-! ## Switching on -/

/-- The format that logging is to start with, or why it cannot start. -/
def start (filter : Option String) (environment : Environment) : Except LoggingError Format :=
  if isFilter ((filter.or environment.filter).getD "off") then
    let text := environment.format.getD "pretty"
    match format? text with
    | some format => .ok format
    | none => .error (.invalidFormat text)
  else .error .invalidFilter

/-- Switches logging on, unless it is on already, and answers whether this was done. The state is
the format that is in use, if logging is on. -/
def enable (filter : Option String) (environment : Environment) :
    Option Format → Except LoggingError Bool × Option Format
  | some inUse => (.ok false, some inUse)
  | none =>
    match start filter environment with
    | .ok format => (.ok true, some format)
    | .error error => (.error error, none)

end LinearModel.Logging
