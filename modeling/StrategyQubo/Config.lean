import StrategyQubo.Number.Literal

namespace StrategyQubo

/-! # Configuration values

What a configuration file or a variable of the environment can hold, and how
one layer of configuration lies over another.
-/

inductive Config where
  | text (value : String)
  | bool (value : Bool)
  | integer (value : Int)
  | real (value : Float)
  /-- A date, a time, or both. -/
  | moment
  | list (items : List Config)
  | table (entries : List (String × Config))

namespace Config

def empty : Config := table []

def get? (key : String) : Config → Option Config
  | table entries => entries.lookup key
  | _ => none

/-- Puts a function of the old entry under a key; a new key goes last. -/
def alter (key : String) (change : Option Config → Config) :
    List (String × Config) → List (String × Config)
  | [] => [(key, change none)]
  | (other, old) :: rest =>
      if other = key then (key, change (some old)) :: rest
      else (other, old) :: alter key change rest

mutual

/-- A layer over what is below it: tables are joined key by key, and any other
    value hides what is below. -/
def onto : Config → Option Config → Config
  | table entries, some (table below) => table (entriesOnto entries below)
  | value, _ => value

def entriesOnto : List (String × Config) → List (String × Config) → List (String × Config)
  | [], below => below
  | (key, value) :: rest, below => entriesOnto rest (alter key value.onto below)

end

/-! ## Reading values -/

/-- The values of a record's fields, from a table by key or from a list by
    place.  Missing ones are left to their defaults. -/
def fields? (keys : List String) : Config → Option (List (Option Config))
  | table entries => some (keys.map fun key => entries.lookup key)
  | list items => some ((List.range keys.length).map fun place => items[place]?)
  | _ => none

def text? : Config → Option String
  | text value => some value
  | _ => none

def word? : Config → Option Nat
  | integer value => if 0 ≤ value ∧ value < Number.pow2 64 then some value.toNat else none
  | _ => none

def number? : Config → Option Float
  | integer value =>
      let magnitude := Number.nearest value.natAbs 0
      some (if value < 0 then -magnitude else magnitude)
  | real value => some value
  | _ => none

/-- A field that may be missing; one that is present has to be readable. -/
def orDefault {α : Type} (read : Config → Option α) (default : α) : Option Config → Option α
  | none => some default
  | some value => read value

end Config

end StrategyQubo
