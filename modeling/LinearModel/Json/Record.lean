import LinearModel.Json.Value

/-!
# Records in JSON

How the typed parts of a document are read off a tree. A record is written as an object, in which
members that are no fields are passed over and a field comes at most once, or as an array of its
fields in the order of their declaration, which may end early only before fields with a default.

A reader gives nothing where the tree is not of its form.
-/

namespace LinearModel.Json

/-- The fields of a record as they are written. -/
structure Record where
  written : List (String × Tree)
  /-- Written as an array, so that a field without a default cannot be left out. -/
  positional : Bool

namespace Tree

variable {α : Type}

/-! ## Simple readers -/

/-- A natural number below `2 ^ 64`. -/
def index? : Tree → Option Nat
  | number literal => literal.index?
  | _ => none

def number? : Tree → Option Binary64
  | number literal => literal.value?
  | _ => none

def text? : Tree → Option String
  | string literal => StringLiteral.text? literal
  | _ => none

/-- One of a fixed set of words: the word as a string, or an object with the word as its only key
and nothing as its value. -/
def word? : Tree → Option String
  | string literal => StringLiteral.text? literal
  | object [(key, null)] => StringLiteral.text? key
  | _ => none

def nullable? (read : Tree → Option α) : Tree → Option (Option α)
  | null => some none
  | tree => (read tree).map some

def list? (read : Tree → Option α) : Tree → Option (List α)
  | array items => items.mapM read
  | _ => none

/-- Members by their keys. -/
def keyed? (members : List (StringLiteral × Tree)) : Option (List (String × Tree)) :=
  members.mapM fun member => do return (← StringLiteral.text? member.1, member.2)

/-- An object with keys of free choice. Every value has to be readable, also that of a key that
comes again. -/
def named? (read : Tree → Option α) : Tree → Option (Named α)
  | object members => do
    let keyed ← keyed? members
    let pairs ← keyed.mapM fun member => do return (member.1, ← read member.2)
    return Named.ofPairs pairs
  | _ => none

/-! ## Records -/

/-- The record with these fields. -/
def record? (fields : List String) : Tree → Option Record
  | object members => do
    let keyed ← keyed? members
    let written := keyed.filter fun member => member.1 ∈ fields
    if (Named.names written).Nodup then some ⟨written, false⟩ else none
  | array items =>
    if items.length ≤ fields.length then some ⟨fields.zip items, true⟩ else none
  | _ => none

end Tree

namespace Record

variable {α : Type}

def required? (record : Record) (field : String) (read : Tree → Option α) : Option α :=
  (Named.get? record.written field).bind read

/-- A field that stands for `default` where it is missing. -/
def withDefault? (record : Record) (field : String) (default : α) (read : Tree → Option α) :
    Option α :=
  match Named.get? record.written field with
  | none => some default
  | some tree => read tree

/-- A field that may be null, and that an object may leave out. -/
def optional? (record : Record) (field : String) (read : Tree → Option α) : Option (Option α) :=
  match Named.get? record.written field with
  | none => if record.positional then none else some none
  | some tree => tree.nullable? read

end Record

end LinearModel.Json
