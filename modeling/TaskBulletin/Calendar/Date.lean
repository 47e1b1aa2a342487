import TaskBulletin.Text.Basic

/-!
# Dates

Days of the Gregorian calendar in the years 1 to 9999, named by year, month and
day, by the day of the year, or by the ISO week and the day in it. Week one of a
year is the week, Monday to Sunday, that holds its first Thursday.
-/

namespace TaskBulletin

structure Date where
  year : Nat
  month : Nat
  day : Nat
  deriving Repr, DecidableEq

namespace Date

def isLeapYear (y : Nat) : Bool := y % 4 == 0 && (y % 100 != 0 || y % 400 == 0)

def daysInYear (y : Nat) : Nat := if isLeapYear y then 366 else 365

def monthLengths (y : Nat) : List Nat :=
  [31, if isLeapYear y then 29 else 28, 31, 30, 31, 30, 31, 31, 30, 31, 30, 31]

/-- The length of a month, zero if there is no such month. -/
def daysInMonth (y m : Nat) : Nat := if m = 0 then 0 else (monthLengths y).getD (m - 1) 0

def validYear (y : Nat) : Bool := 1 ≤ y && y ≤ 9999

def valid (d : Date) : Bool :=
  validYear d.year && 1 ≤ d.day && d.day ≤ daysInMonth d.year d.month

/-- The days before the first of January of a year. -/
def daysBeforeYear (y : Nat) : Nat :=
  let past := y - 1
  past * 365 + past / 4 - past / 100 + past / 400

/-- The weekday of the first of January, Monday being zero. -/
def newYearWeekday (y : Nat) : Nat := daysBeforeYear y % 7

/-- The month and day of a day counted from zero over the given months, the first
of which is month `m`. -/
def monthAndDay (m : Nat) : List Nat → Nat → Nat × Nat
  | [], n => (m, n + 1)
  | length :: lengths, n =>
    if n < length then (m, n + 1) else monthAndDay (m + 1) lengths (n - length)

/-- The day of a year that is counted from zero. -/
def ofDayOfYear (y n : Nat) : Date :=
  let (month, day) := monthAndDay 1 (monthLengths y) n
  ⟨y, month, day⟩

/-- The day at a distance from the first of January that is less than a year before
it or after the end of the year. -/
def ofOffset (y : Nat) (offset : Int) : Date :=
  if offset < 0 then ofDayOfYear (y - 1) (offset + daysInYear (y - 1)).toNat
  else if offset < daysInYear y then ofDayOfYear y offset.toNat
  else ofDayOfYear (y + 1) (offset - daysInYear y).toNat

/-- Does a year have 53 weeks? It does when it starts on a Thursday, or on a
Wednesday and is a leap year. -/
def hasLongCalendar (y : Nat) : Bool :=
  newYearWeekday y == 3 || (newYearWeekday y == 2 && isLeapYear y)

def validWeek (y w : Nat) : Bool := 1 ≤ w && (w ≤ 52 || (w == 53 && hasLongCalendar y))

/-- The distance of the Monday of week one from the first of January. -/
def firstMonday (y : Nat) : Int :=
  let weekday := newYearWeekday y
  if weekday ≤ 3 then -(weekday : Int) else 7 - weekday

/-- The day of an ISO week, if there is one. -/
def ofWeek? (y w d : Nat) : Option Date :=
  if validYear y && validWeek y w && 1 ≤ d && d ≤ 7 then
    some (ofOffset y (firstMonday y + (7 * (w - 1) + (d - 1) : Nat)))
  else none

end Date

end TaskBulletin
