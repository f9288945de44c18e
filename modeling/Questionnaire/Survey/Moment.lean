import Questionnaire.YearMonth

/-! Local points in time, to the minute, with the names of months and weekdays. -/
namespace Questionnaire

structure Moment where
  year : Int
  month : Nat
  day : Nat
  hour : Nat
  minute : Nat
deriving DecidableEq

namespace Moment

open Text

/-- Hours, minutes and seconds behind the letter `T`, with colons between them, and
nothing else. -/
def readTime? (cs : List Char) : Option (Nat × Nat) := do
  let (hour, rest) ← YearMonth.takePart? 'T' cs
  let (minute, rest) ← YearMonth.takePart? ':' rest
  let (second, rest) ← YearMonth.takePart? ':' rest
  if rest.isEmpty && hour < 24 && minute < 60 && second ≤ 60 then some (hour, minute) else none

def read? (s : String) : Option Moment := do
  let (year, rest) ← YearMonth.takeYear? s.toList
  let (month, rest) ← YearMonth.takePart? '-' rest
  let (day, rest) ← YearMonth.takePart? '-' rest
  let (hour, minute) ← readTime? rest
  let _ ← YearMonth.of? year month
  if 1 ≤ day && day ≤ YearMonth.daysIn year month then some ⟨year, month, day, hour, minute⟩
  else none

def monthNames : List String :=
  ["January", "February", "March", "April", "May", "June", "July", "August", "September",
    "October", "November", "December"]

def weekdayNames : List String :=
  ["Monday", "Tuesday", "Wednesday", "Thursday", "Friday", "Saturday", "Sunday"]

/-- Days of the year before the first of a month. -/
def daysBefore (year : Int) (month : Nat) : Nat :=
  (List.range (month - 1)).foldl (fun days m => days + YearMonth.daysIn year (m + 1)) 0

/-- Days since the first of January of the year one. -/
def dayNumber (m : Moment) : Int :=
  let past := m.year - 1
  365 * past + past / 4 - past / 100 + past / 400 + daysBefore m.year m.month + m.day - 1

/-- The first of January of the year one was a Monday. -/
def weekday (m : Moment) : String := weekdayNames[(m.dayNumber % 7).toNat]?.getD ""

def monthName (m : Moment) : String := monthNames[m.month - 1]?.getD ""

/-- Four digits; a year that does not fit in them carries its sign. -/
def yearText (m : Moment) : String :=
  if m.year > 9999 then "+" ++ toString m.year
  else signedDigits (if m.year < 0 then 5 else 4) m.year

def twoDigits (n : Nat) : String := padZeros 2 (toString n)

def monthText (m : Moment) : String := m.yearText ++ "-" ++ twoDigits m.month

def dateText (m : Moment) : String := m.monthText ++ "-" ++ twoDigits m.day

def timeText (m : Moment) : String := twoDigits m.hour ++ ":" ++ twoDigits m.minute

end Moment

end Questionnaire
