/-!
# The calendar

Days are counted from the first of January 1970, in the Gregorian calendar
carried back and forth without end; the year before year one is year zero.

The calendar repeats after 400 years. Within such a cycle a year is found by
one guess: dividing by the longest year falls short by at most one.
-/

namespace DocumentStore.Date

/-- A day of the calendar. Months and days of the month count from one. -/
structure Day where
  year : Int
  month : Nat
  day : Nat
deriving DecidableEq

def isLeap (year : Int) : Bool :=
  year % 4 == 0 && (year % 100 != 0 || year % 400 == 0)

/-- The lengths of the months. -/
def monthLengths (leap : Bool) : List Nat :=
  [31, if leap then 29 else 28, 31, 30, 31, 30, 31, 31, 30, 31, 30, 31]

/-- The length of a month, and zero if there is no such month. -/
def monthLength (leap : Bool) (month : Nat) : Nat :=
  if month = 0 then 0 else ((monthLengths leap)[month - 1]?).getD 0

/-- Days from the start of a year to the start of one of its months. -/
def daysToMonth (leap : Bool) (month : Nat) : Nat :=
  ((monthLengths leap).take (month - 1)).foldr (· + ·) 0

/-- Whether the calendar has the day. -/
def Day.isValid (d : Day) : Bool :=
  1 ≤ d.day && d.day ≤ monthLength (isLeap d.year) d.month

/-- Days in a cycle of 400 years. -/
def cycleDays : Int := 146097

/-- Days from the start of a cycle to the start of one of its years. The first
year of a cycle is a leap year. -/
def daysToYear (year : Int) : Int :=
  365 * year + (year + 3) / 4 - (year + 99) / 100 + (year + 399) / 400

/-- The first of January 1970, counted from the start of year zero. -/
def epoch : Int := 719528

/-- The number of a day. -/
def Day.toNumber (d : Day) : Int :=
  let cycle := d.year / 400
  cycle * cycleDays + daysToYear (d.year % 400) + daysToMonth
    (isLeap d.year) d.month + d.day - 1 -
    epoch

/-- Find a month and the day in it by the lengths of the months, from month
`month` on. -/
def monthAndDay (month : Nat) : List Nat → Nat → Nat × Nat
  | [], left => (month, left + 1)
  | length :: rest, left =>
      if left < length then (month, left + 1)
      else monthAndDay (month + 1) rest (left - length)

/-- The day with a number. -/
def Day.ofNumber (number : Int) : Day :=
  let fromZero := number + epoch
  let cycle := fromZero / cycleDays
  let inCycle := fromZero % cycleDays
  let guess := inCycle / 366
  let inner := if daysToYear (guess + 1) ≤ inCycle then guess + 1 else guess
  let year := cycle * 400 + inner
  let (month, day) :=
    monthAndDay 1 (monthLengths (isLeap year))
      (inCycle - daysToYear inner).toNat
  ⟨year, month, day⟩

end DocumentStore.Date
