import ReservoirDeck.Record.Reader
import ReservoirDeck.Writer

/-!
Dates. Which days there are is left to the calendar.
-/

namespace ReservoirDeck

/-- Which days there are, by their year, month and number in the month. -/
class Calendar where
  isDay : Int32 → Nat → Nat → Bool
  month_bounds {year : Int32} {month day : Nat} (h : isDay year month day = true) :
    1 ≤ month ∧ month ≤ 12
  day_bounds {year : Int32} {month day : Nat} (h : isDay year month day = true) :
    1 ≤ day ∧ day ≤ 31

structure Date where
  year : Int32
  month : Nat
  day : Nat
  deriving DecidableEq

namespace Date

def of? [Calendar] (year : Int32) (month day : Nat) : Option Date :=
  if Calendar.isDay year month day then some ⟨year, month, day⟩ else none

def monthNames : List String :=
  ["JAN", "FEB", "MAR", "APR", "MAY", "JUN", "JUL", "AUG", "SEP", "OCT", "NOV", "DEC"]

/-- The number of a month by its name, in either case. July has a second name. -/
def month? (name : String) : Option Nat :=
  let upper := name.toUpper
  if upper == "JLY" then some 7
  else (monthNames.idxOf? upper).map (· + 1)

/-- A number of 32 bits, with or without a plus sign. -/
def day? (s : String) : Option Nat :=
  let number := match s.toList with
    | '+' :: digits => naturalOfChars? digits
    | digits => naturalOfChars? digits
  number.filter (· < UInt32.size)

/-- A month and a year, after the day. -/
def read [Calendar] (day : String) : RecordM Date := do
  let month ← RecordM.requiredName "month"
  let year ← RecordM.requiredNumber Int32 "year"
  let date? := do of? year (← month? month) (← day? day)
  match date? with
  | some date => return date
  | none => RecordM.malformed (.invalidDate month year)

def tokens (d : Date) : List String :=
  [toString d.day, nameToken (monthNames[d.month - 1]?.getD ""), integerText d.year]

end Date

end ReservoirDeck
