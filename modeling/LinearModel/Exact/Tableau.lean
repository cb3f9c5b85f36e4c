/-!
# Tableaus over the rationals

A tableau belongs to a system of variables of which some, the basic ones, are written as weighted
sums of the others. Every variable has bounds and a current value, and the values of the basic
ones always follow from those of the others. Two operations change a tableau and keep that: `move`
gives a variable that is not basic another value, `exchange` swaps a basic variable with one that
is not.

Variables are numbered; rows and columns of the tableau are places, and `basic` and `free` say
which variable stands at a place.
-/

namespace LinearModel.Exact

/-- The least and the greatest value of a variable, where there is one. -/
structure Bounds where
  lower : Option Rat
  upper : Option Rat
  deriving DecidableEq, Inhabited

namespace Bounds

def isBelow (bounds : Bounds) (value : Rat) : Bool := bounds.lower.any fun lower => value < lower

def isAbove (bounds : Bounds) (value : Rat) : Bool := bounds.upper.any fun upper => upper < value

def canRise (bounds : Bounds) (value : Rat) : Bool := bounds.upper.all fun upper => value < upper

def canFall (bounds : Bounds) (value : Rat) : Bool := bounds.lower.all fun lower => lower < value

/-- No value lies within. -/
def isEmpty (bounds : Bounds) : Bool :=
  match bounds.lower, bounds.upper with
  | some lower, some upper => upper < lower
  | _, _ => false

/-- The value that a variable of this weight starts with when the sum is to become small: the
bound that the weight prefers, or else the bound there is, or else zero. -/
def start (bounds : Bounds) (weight : Rat) : Rat :=
  match bounds.lower, bounds.upper with
  | none, none => 0
  | some lower, none => lower
  | none, some upper => upper
  | some lower, some upper => if weight < 0 then upper else lower

end Bounds

structure Tableau where
  /-- By variable. -/
  bounds : Array Bounds
  /-- By variable. -/
  values : Array Rat
  /-- The variable of each row. -/
  basic : Array Nat
  /-- The variable of each column. -/
  free : Array Nat
  /-- The weights of the columns in each row. -/
  rows : Array (Array Rat)
  /-- The weights of the columns in the sum that is to become small. -/
  cost : Array Rat

namespace Tableau

def value (t : Tableau) (v : Nat) : Rat := t.values.getD v 0

def boundsOf (t : Tableau) (v : Nat) : Bounds := t.bounds.getD v default

def basicAt (t : Tableau) (r : Nat) : Nat := t.basic.getD r 0

def freeAt (t : Tableau) (c : Nat) : Nat := t.free.getD c 0

def weight (t : Tableau) (r c : Nat) : Rat := (t.rows.getD r #[]).getD c 0

def costAt (t : Tableau) (c : Nat) : Rat := t.cost.getD c 0

/-- Of the places for which `key` gives a number, the one with the least; the first of equals. -/
def least (places : List Nat) (key : Nat → Option Nat) : Option Nat :=
  (places.foldl (fun best place =>
    match key place, best with
    | some k, some (held, _) => if k < held then some (k, place) else best
    | some k, none => some (k, place)
    | none, _ => best) none).map Prod.snd

/-- Changes the variable of a column by `amount`, and the basic variables with it. -/
def move (t : Tableau) (c : Nat) (amount : Rat) : Tableau :=
  let moved := t.values.modify (t.freeAt c) (· + amount)
  { t with
    values := (List.range t.basic.size).foldl
      (fun values r => values.modify (t.basicAt r) (· + t.weight r c * amount)) moved }

/-- A sum of the columns as it stands after column `c` has been replaced by what `solved` says of
it. -/
def substitute (solved : Array Rat) (c : Nat) (weights : Array Rat) : Array Rat :=
  let factor := weights.getD c 0
  if factor = 0 then weights
  else weights.mapIdx fun j weight =>
    if j = c then factor * solved.getD c 0 else weight + factor * solved.getD j 0

/-- The variables of row `r` and column `c` swap their places. -/
def exchange (t : Tableau) (r c : Nat) : Tableau :=
  let pivot := t.weight r c
  let solved := (t.rows.getD r #[]).mapIdx fun j weight =>
    if j = c then 1 / pivot else -weight / pivot
  { t with
    basic := t.basic.setIfInBounds r (t.freeAt c)
    free := t.free.setIfInBounds c (t.basicAt r)
    rows := t.rows.mapIdx fun i weights => if i = r then solved else substitute solved c weights
    cost := substitute solved c t.cost }

end Tableau

end LinearModel.Exact
