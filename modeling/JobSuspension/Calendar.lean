/-!
# The Gregorian calendar

Dates of the proleptic Gregorian calendar, for all years, and their day numbers.  Day 0 is
1970-01-01.

* `Date`                 year, month and day;
* `Date.Valid d`         the month exists and has that day;
* `Date.dayNumber d`     the number of the day `d`;
* `Date.ofDayNumber n`   the date of day `n`.

The rule behind both directions: 400 years have 146097 days, a century 36524, four years 1461 and
a year 365, and only the last of each period is a day longer.
-/

namespace JobSuspension

structure Date where
  year : Int
  month : Nat
  day : Nat
  deriving DecidableEq, Repr

namespace Date

def isLeapYear (y : Int) : Bool := y % 4 == 0 && (y % 100 != 0 || y % 400 == 0)

def monthLengths (y : Int) : List Nat :=
  [31, if isLeapYear y then 29 else 28, 31, 30, 31, 30, 31, 31, 30, 31, 30, 31]

def Valid (d : Date) : Prop :=
  1 ≤ d.month ∧ d.month ≤ 12 ∧ 1 ≤ d.day ∧ d.day ≤ (monthLengths d.year).getD (d.month - 1) 0

instance (d : Date) : Decidable d.Valid := by
  unfold Valid
  infer_instance

/-- the days from 0001-01-01 to the first day of a year -/
def daysBeforeYear (y : Int) : Int :=
  365 * (y - 1) + (y - 1) / 4 - (y - 1) / 100 + (y - 1) / 400

/-- the days from 0001-01-01 to 1970-01-01 -/
def epochDays : Int := 719162

/-- the days of a year before the first day of a month -/
def daysBeforeMonth (y : Int) (month : Nat) : Nat :=
  ((monthLengths y).take (month - 1)).foldl (· + ·) 0

def dayNumber (d : Date) : Int :=
  daysBeforeYear d.year + (daysBeforeMonth d.year d.month + (d.day - 1) : Nat) - epochDays

/-- month and day of a day of the year that is counted from 0 -/
def monthAndDay : List Nat → Nat → Nat × Nat
  | [], n => (1, n + 1)
  | l :: ls, n =>
    if n < l then (1, n + 1)
    else
      let (m, d) := monthAndDay ls (n - l)
      (m + 1, d)

def ofDayNumber (n : Int) : Date :=
  let n := n + epochDays
  let cycles := n / 146097
  let inCycle := (n % 146097).toNat
  let centuries := min (inCycle / 36524) 3
  let inCentury := inCycle - 36524 * centuries
  let quads := inCentury / 1461
  let inQuad := inCentury % 1461
  let years := min (inQuad / 365) 3
  let year := 400 * cycles + (100 * centuries + 4 * quads + years + 1 : Nat)
  let (month, day) := monthAndDay (monthLengths year) (inQuad - 365 * years)
  ⟨year, month, day⟩

example : dayNumber ⟨1970, 1, 1⟩ = 0 := by decide
example : dayNumber ⟨2024, 2, 29⟩ = 19782 := by decide
example : ofDayNumber 19782 = ⟨2024, 2, 29⟩ := by decide
example : ofDayNumber (-1) = ⟨1969, 12, 31⟩ := by decide
example : ofDayNumber (dayNumber ⟨-262143, 1, 1⟩) = ⟨-262143, 1, 1⟩ := by decide

end Date
end JobSuspension
