import Questionnaire.Text.Blank
import Questionnaire.Text.Cut
import Questionnaire.Text.Numeral

/-! Months of the calendar. A month has its place in the sequence of all months. The
calendar shifts it forward or back by a count of months, as long as the year stays
between the earliest and the latest one. -/
namespace Questionnaire

abbrev YearMonth.earliestYear : Int := -262143
abbrev YearMonth.latestYear : Int := 262142

structure YearMonth where
  year : Int
  month : Nat
  year_range : YearMonth.earliestYear ≤ year ∧ year ≤ YearMonth.latestYear
  month_range : 1 ≤ month ∧ month ≤ 12
deriving DecidableEq

namespace YearMonth

open Text

def of? (year : Int) (month : Nat) : Option YearMonth :=
  if h : (earliestYear ≤ year ∧ year ≤ latestYear) ∧ 1 ≤ month ∧ month ≤ 12 then
    some ⟨year, month, h.1, h.2⟩
  else none

/-- The place of the month, counted from the first month of year zero. -/
def index (m : YearMonth) : Int := 12 * m.year + m.month - 1

def ofIndex? (place : Int) : Option YearMonth := of? (place / 12) ((place % 12).toNat + 1)

/-- The month a count of months later by the calendar. -/
def later? (m : YearMonth) (count : Nat) : Option YearMonth := ofIndex? (m.index + count)

/-- The month a count of months earlier by the calendar. -/
def earlier? (m : YearMonth) (count : Nat) : Option YearMonth := ofIndex? (m.index - count)

/-- The calendar counts months in words of thirty-two bits. -/
def monthCount? (months : Int64) : Option Nat :=
  if 0 ≤ months.toInt ∧ months.toInt ≤ largestUInt32 then some months.toInt.toNat else none

/-- The month `months` later, or earlier for a negative shift, whose sign is turned
around within sixty-four bits. -/
def addMonths? (m : YearMonth) (months : Int64) : Option YearMonth :=
  if 0 ≤ months then (monthCount? months).bind m.later?
  else (monthCount? (-months)).bind m.earlier?

/-- Months from `m` to `other`, negative when `other` is earlier. -/
def monthsUntil (m other : YearMonth) : Int :=
  (other.year - m.year) * 12 + (other.month - m.month)

/-- By year, then by month. -/
def compare (a b : YearMonth) : Ordering :=
  (Ord.compare a.year b.year).then (Ord.compare a.month b.month)

/-- Year in four places or more, a hyphen, month in two. -/
def text (m : YearMonth) : String :=
  signedDigits 4 m.year ++ "-" ++ signedDigits 2 m.month

def isLeap (year : Int) : Bool := year % 4 == 0 && (year % 100 != 0 || year % 400 == 0)

def daysIn (year : Int) (month : Nat) : Nat :=
  if month = 2 then if isLeap year then 29 else 28
  else if month = 4 ∨ month = 6 ∨ month = 9 ∨ month = 11 then 30
  else 31

/-- One digit or more, at most `most`, and what follows them. -/
def takeDigits? (most : Nat) (cs : List Char) : Option (Nat × List Char) :=
  let digits := (cs.takeWhile Char.isDigit).take most
  if digits.isEmpty then none else some (digitsValue digits, cs.drop digits.length)

/-- A year after optional blanks: up to four digits, or any number of them behind a sign. -/
def takeYear? (cs : List Char) : Option (Int × List Char) :=
  match trimStartChars cs with
  | '-' :: rest => (takeDigits? rest.length rest).map fun (n, rest) => (-(n : Int), rest)
  | '+' :: rest => (takeDigits? rest.length rest).map fun (n, rest) => ((n : Int), rest)
  | rest => (takeDigits? 4 rest).map fun (n, rest) => ((n : Int), rest)

/-- A separator, optional blanks and a number of one or two digits. -/
def takePart? (separator : Char) (cs : List Char) : Option (Nat × List Char) := do
  takeDigits? 2 (trimStartChars (← stripLeading? [separator] cs))

/-- The month of a full date. -/
def readDate? (cs : List Char) : Option YearMonth := do
  let (year, rest) ← takeYear? cs
  let (month, rest) ← takePart? '-' rest
  let (day, rest) ← takePart? '-' rest
  if rest.isEmpty && 1 ≤ day && day ≤ daysIn year month then of? year month else none

inductive ReadError where
  | notYearMonth (text : String)
  | badYear (text : String)
  | badMonth (text : String)
  | outOfRange (text : String)
deriving DecidableEq

def ReadError.message : ReadError → String
  | notYearMonth text => "'" ++ text ++ "' is not a year-month"
  | badYear text => "'" ++ text ++ "' has no valid year"
  | badMonth text => "'" ++ text ++ "' has no valid month"
  | outOfRange text => "'" ++ text ++ "' is out of range"

/-- A full date, or a year and a month with a hyphen or a slash between them. -/
def read (s : String) : Except ReadError YearMonth :=
  let trimmed := trim s
  match readDate? trimmed.toList with
  | some m => .ok m
  | none =>
    match cutAtChars? (fun c => c == '-' || c == '/') trimmed.toList with
    | none => .error (.notYearMonth trimmed)
    | some (year, month) =>
      match readSigned? largestInt32 year, readUnsigned? largestUInt32 month with
      | none, _ => .error (.badYear trimmed)
      | some _, none => .error (.badMonth trimmed)
      | some y, some m =>
        match of? y m with
        | some m => .ok m
        | none => .error (.outOfRange trimmed)

def read? (s : String) : Option YearMonth := (read s).toOption

theorem index_ofIndex? {place : Int} {m : YearMonth} (h : ofIndex? place = some m) :
    m.index = place := by
  unfold ofIndex? of? at h
  split at h
  · cases h
    simp only [index]
    omega
  · simp at h

theorem ofIndex?_index (m : YearMonth) : ofIndex? m.index = some m := by
  have hm := m.month_range
  have hy := m.year_range
  have hdiv : m.index / 12 = m.year := by simp only [index]; omega
  have hmod : (m.index % 12).toNat + 1 = m.month := by simp only [index]; omega
  simp [ofIndex?, of?, hdiv, hmod, hm, hy]

end YearMonth

end Questionnaire
