/-!
Days of the proleptic Gregorian calendar, times of day and timestamps. Dates run from the first day of
the year -262143 to the last day of the year 262142; stepping past an end gives no date. A leap second
is the second 59 with nanoseconds from 1000000000 on.
-/
namespace PortableSql.Calendar

def isLeapYear (year : Int) : Bool :=
  year % 4 == 0 && (year % 100 != 0 || year % 400 == 0)

def daysInMonth (year : Int) (month : Nat) : Nat :=
  match month with
  | 2 => if isLeapYear year then 29 else 28
  | 4 | 6 | 9 | 11 => 30
  | _ => 31

def firstYear : Int := -262143

def lastYear : Int := 262142

/-- A day of the calendar. -/
structure Date where
  year : Int
  month : Nat
  day : Nat
  valid : (firstYear ≤ year ∧ year ≤ lastYear) ∧ (1 ≤ month ∧ month ≤ 12) ∧
    (1 ≤ day ∧ day ≤ daysInMonth year month)
  deriving DecidableEq, Repr

namespace Date

/-- The day with this year, month and day of the month, if the calendar has it. -/
def of? (year : Int) (month day : Nat) : Option Date :=
  if valid : (firstYear ≤ year ∧ year ≤ lastYear) ∧ (1 ≤ month ∧ month ≤ 12) ∧
      (1 ≤ day ∧ day ≤ daysInMonth year month) then
    some ⟨year, month, day, valid⟩
  else
    none

/-- The day behind a day. -/
def next? (d : Date) : Option Date :=
  if d.day < daysInMonth d.year d.month then
    of? d.year d.month (d.day + 1)
  else if d.month < 12 then
    of? d.year (d.month + 1) 1
  else
    of? (d.year + 1) 1 1

/-- The day before a day. -/
def previous? (d : Date) : Option Date :=
  if 1 < d.day then
    of? d.year d.month (d.day - 1)
  else if 1 < d.month then
    of? d.year (d.month - 1) (daysInMonth d.year (d.month - 1))
  else
    of? (d.year - 1) 12 31

/-- The first day of the month behind the month of a day. -/
def nextMonth? (d : Date) : Option Date :=
  if d.month < 12 then of? d.year (d.month + 1) 1 else of? (d.year + 1) 1 1

/-- The first day of the month of a day. -/
def firstOfMonth (d : Date) : Date :=
  (of? d.year d.month 1).getD d

/-- The last day of the month of a day: the one before the first day of the next month. A day of the
last month of all is left as it is. -/
def lastOfMonth (d : Date) : Date :=
  ((nextMonth? d).bind previous?).getD d

def firstOfYear (d : Date) : Date :=
  (of? d.year 1 1).getD d

def lastOfYear (d : Date) : Date :=
  (of? d.year 12 31).getD d

/-- The day before a day; the first day of all is left as it is. -/
def yesterday (d : Date) : Date :=
  d.previous?.getD d

/-- The day behind a day; the last day of all is left as it is. -/
def tomorrow (d : Date) : Date :=
  d.next?.getD d

end Date

/-- A billion nanoseconds are a second. -/
def nanosecondsPerSecond : Nat := 1000000000

/-- A time of day. -/
structure Time where
  hour : Nat
  minute : Nat
  second : Nat
  nanosecond : Nat
  valid : hour < 24 ∧ minute < 60 ∧ second < 60 ∧ nanosecond < 2 * nanosecondsPerSecond ∧
    (nanosecondsPerSecond ≤ nanosecond → second = 59)
  deriving DecidableEq, Repr

namespace Time

/-- The time of day with these parts, if there is one. -/
def of? (hour minute second nanosecond : Nat) : Option Time :=
  if valid : hour < 24 ∧ minute < 60 ∧ second < 60 ∧ nanosecond < 2 * nanosecondsPerSecond ∧
      (nanosecondsPerSecond ≤ nanosecond → second = 59) then
    some ⟨hour, minute, second, nanosecond, valid⟩
  else
    none

def midnight : Time :=
  ⟨0, 0, 0, 0, by decide⟩

/-- The second that a clock face shows: 60 in a leap second. -/
def shownSecond (t : Time) : Nat :=
  t.second + t.nanosecond / nanosecondsPerSecond

end Time

/-- A timestamp without a time zone. -/
structure DateTime where
  date : Date
  time : Time
  deriving DecidableEq, Repr

end PortableSql.Calendar
