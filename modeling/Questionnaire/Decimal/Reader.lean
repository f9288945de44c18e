import Questionnaire.Decimal.Arithmetic
import Questionnaire.Text.Numeral
import Questionnaire.Text.Cut

/-! Numbers as people type them. A numeral is an optional sign, digits with one point
among them and underscores after the first digit, and optionally an exponent.
Fraction digits that do not fit any more are rounded away by looking at the first
of them, a half going up; whole digits that do not fit make the numeral
unreadable. -/
namespace Questionnaire.Decimal

open Questionnaire.Text

/-- What has been read of a numeral: its digits so far, how many of them follow the
point, and whether the point and the first digit have been seen. -/
structure Numeral where
  coefficient : Nat := 0
  fraction : Nat := 0
  point : Bool := false
  digit : Bool := false

namespace Numeral

/-- The coefficient after the digit that does not fit, which decides the rounding. -/
def rounded (n : Numeral) (negative : Bool) (next : Nat) : Option Decimal :=
  let up := if next ≥ 5 then n.coefficient + 1 else n.coefficient
  if up < coefficientBound then ofParts? negative up n.fraction
  else match n.fraction with
    | 0 => none
    | fraction + 1 => ofParts? negative ((up + 4) / 10) fraction

def finish (n : Numeral) (negative : Bool) : Option Decimal :=
  if n.digit then ofParts? negative n.coefficient n.fraction else none

/-- Reads the rest of a numeral. Once a fraction digit does not fit, what follows it
is not looked at. -/
def read (negative : Bool) (n : Numeral) : List Char → Option Decimal
  | [] => n.finish negative
  | c :: cs =>
    if c.isDigit then
      let next := 10 * n.coefficient + digitValue c
      if n.point && (n.fraction ≥ maxScale || next ≥ coefficientBound) then
        n.rounded negative (digitValue c)
      else if next ≥ coefficientBound then none
      else read negative
        { coefficient := next, fraction := n.fraction + n.point.toNat, point := n.point,
          digit := true } cs
    else if n.point && n.fraction ≥ maxScale && (c == '_' || c == '.') then n.finish negative
    else if c == '.' && !n.point then read negative { n with point := true } cs
    else if c == '_' && n.digit then read negative n cs
    else none

end Numeral

def readPlain? (cs : List Char) : Option Decimal :=
  match cs with
  | '-' :: rest => Numeral.read true {} rest
  | '+' :: rest => Numeral.read false {} rest
  | _ => Numeral.read false {} cs

/-- The number with its point moved `places` to the left. -/
def shiftLeft? (d : Decimal) (places : Nat) : Option Decimal :=
  ofParts? d.negative d.coefficient (d.scale + places)

/-- The number with its point moved `places` to the right, at most twenty-eight. -/
def shiftRight? (d : Decimal) (places : Nat) : Option Decimal :=
  if places ≤ d.scale then ofParts? d.negative d.coefficient (d.scale - places)
  else if places > maxScale then none
  else (round? d.negative (d.coefficient * powerOfTen places) d.scale).map normalize

def readScientific? (mantissa exponent : List Char) : Option Decimal := do
  let d ← readPlain? mantissa
  match exponent with
  | '-' :: places => shiftLeft? d (← readUnsigned? largestUInt32 places)
  | places => shiftRight? d (← readUnsigned? largestUInt32 places)

def read? (s : String) : Option Decimal :=
  match cutAtChars? (fun c => c == 'e' || c == 'E') s.toList with
  | some (mantissa, exponent) => readScientific? mantissa exponent
  | none => readPlain? s.toList

example : (read? "1_000.50").map text = some "1000.50" ∧ (read? ".5").map text = some "0.5" ∧
    (read? "5.").map text = some "5" ∧ read? "." = none ∧ read? "_1" = none ∧
    (read? "1e5").map text = some "100000" ∧ (read? "-12e-1").map text = some "-1.2" ∧
    read? "1e400" = none ∧ read? "79228162514264337593543950336" = none ∧
    (read? "79228162514264337593543950335.4").map text =
      some "79228162514264337593543950335" := by
  decide +kernel

end Questionnaire.Decimal
