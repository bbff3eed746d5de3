import StrategyQubo.Number.Literal

namespace StrategyQubo.Config.Moment

/-! # Dates and times

Dates, times of day, and both with an offset, as a configuration file writes
them.
-/

/-- A number of exactly so many digits, and what follows it. -/
def number? (count : Nat) (text : List Char) : Option (Nat × List Char) :=
  let digits := text.take count
  if digits.length = count ∧ digits.all Char.isDigit then
    some (Number.digitsValue digits, text.drop count)
  else
    none

/-- Two digits behind a given mark. -/
def marked? (mark : Char) (text : List Char) : Option (Nat × List Char) :=
  match text with
  | c :: rest => if c = mark then number? 2 rest else none
  | [] => none

def isLeapYear (year : Nat) : Bool :=
  year % 4 == 0 && (year % 100 != 0 || year % 400 == 0)

def daysIn (year month : Nat) : Nat :=
  if month = 2 then (if isLeapYear year then 29 else 28)
  else if month = 4 ∨ month = 6 ∨ month = 9 ∨ month = 11 then 30
  else 31

/-- What follows a date at the front of a text. -/
def afterDate? (text : List Char) : Option (List Char) := do
  let (year, rest) ← number? 4 text
  let (month, rest) ← marked? '-' rest
  let (day, rest) ← marked? '-' rest
  if 1 ≤ month ∧ month ≤ 12 ∧ 1 ≤ day ∧ day ≤ daysIn year month then some rest else none

/-- What follows the fraction of a second, if there is one. -/
def afterFraction? (text : List Char) : Option (List Char) :=
  match text with
  | '.' :: rest =>
      if (rest.takeWhile Char.isDigit).isEmpty then none else some (rest.dropWhile Char.isDigit)
  | _ => some text

def afterTime? (text : List Char) : Option (List Char) := do
  let (hour, rest) ← number? 2 text
  let (minute, rest) ← marked? ':' rest
  let (second, rest) ← marked? ':' rest
  if hour ≤ 23 ∧ minute ≤ 59 ∧ second ≤ 60 then afterFraction? rest else none

def isOffset (text : List Char) : Bool :=
  match text with
  | [] => true
  | ['Z'] => true
  | ['z'] => true
  | sign :: rest =>
      match if sign = '+' ∨ sign = '-' then number? 2 rest else none with
      | some (hour, rest) =>
          match marked? ':' rest with
          | some (minute, []) => hour ≤ 23 && minute ≤ 59
          | _ => false
      | none => false

/-- Whether a word is a date, a time of day, or a date with a time behind a
    letter or a blank. -/
def isMoment (word : List Char) : Bool :=
  match afterDate? word with
  | some [] => true
  | some (c :: rest) =>
      (c == 'T' || c == 't' || c == ' ') && (afterTime? rest).any isOffset
  | none => afterTime? word == some []

end StrategyQubo.Config.Moment
