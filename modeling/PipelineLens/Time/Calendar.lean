/-!
# Days of the calendar

The Gregorian calendar, extended to the years before it was introduced. `dayNumber` counts days from
1 January 1970.
-/
namespace PipelineLens.Calendar

def isLeap (year : Nat) : Bool := year % 4 = 0 && (year % 100 ≠ 0 || year % 400 = 0)

/-- The lengths of the months. -/
def monthLengths (year : Nat) : List Nat :=
  [31, if isLeap year then 29 else 28, 31, 30, 31, 30, 31, 31, 30, 31, 30, 31]

/-- Whether there is such a day. Months and days count from one. -/
def isDate (year month day : Nat) : Bool :=
  1 ≤ month && 1 ≤ day && ((monthLengths year)[month - 1]?).any (day ≤ ·)

/-- The leap days in the years from 0 to the one before `year`. -/
def leapDays (year : Nat) : Nat := (year + 3) / 4 - (year + 99) / 100 + (year + 399) / 400

/-- The days from 1 January of the year 0. -/
def daysFromZero (year month day : Nat) : Nat :=
  365 * year + leapDays year + ((monthLengths year).take (month - 1)).foldl (· + ·) 0 + (day - 1)

/-- The days from 1 January 1970. -/
def dayNumber (year month day : Nat) : Int :=
  (daysFromZero year month day : Int) - daysFromZero 1970 1 1

example : dayNumber 2000 3 1 = 11017 := by decide

end PipelineLens.Calendar
