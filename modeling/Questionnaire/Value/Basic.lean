import Questionnaire.Decimal.Reader
import Questionnaire.YearMonth

/-! What an expression evaluates to, and the readings of a value as a truth value, a
number, a month and a text. -/
namespace Questionnaire

inductive Value where
  | null
  | bool (b : Bool)
  | number (n : Decimal)
  | text (s : String)
  | list (items : List Value)
  | yearMonth (m : YearMonth)

namespace Value

/-- Missing, empty text or empty list. -/
def isEmpty : Value → Bool
  | null => true
  | text s => s.isEmpty
  | list items => items.isEmpty
  | bool _ | number _ | yearMonth _ => false

def truthy : Value → Bool
  | null => false
  | bool b => b
  | number n => !n.isZero
  | text s => !s.isEmpty && s != "false"
  | list items => !items.isEmpty
  | yearMonth _ => true

/-- Truth values count as one and zero, text that looks like a number as that
number, a list of one item as its item. -/
def asNumber? : Value → Option Decimal
  | number n => some n
  | bool b => some (Decimal.ofNat b.toNat)
  | text s => Decimal.read? (Text.trim s)
  | list [item] => item.asNumber?
  | list _ | null | yearMonth _ => none

def asYearMonth? : Value → Option YearMonth
  | yearMonth m => some m
  | text s => YearMonth.read? s
  | _ => none

mutual

/-- The value as respondents see it; the items of a list stand between commas. -/
def display : Value → String
  | null => ""
  | bool b => if b then "true" else "false"
  | number n => n.plainText
  | text s => s
  | list items => ",".intercalate (displayAll items)
  | yearMonth m => m.text

def displayAll : List Value → List String
  | [] => []
  | item :: items => item.display :: displayAll items

end

end Value

end Questionnaire
