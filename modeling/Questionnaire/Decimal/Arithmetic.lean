import Questionnaire.Decimal.Basic

/-! Exact arithmetic followed by one rounding. A result keeps as many fraction digits
as fit, at most twenty-eight; the digits beyond are rounded away to the nearest
number, a tie going to the even neighbour. There is no result when the whole part
alone is too large. -/
namespace Questionnaire.Decimal

open Text

/-- The whole number nearest to `n / d`; of two equally near ones the even one. -/
def divNearest (n d : Nat) : Nat :=
  let quotient := n / d
  let twice := 2 * (n % d)
  if twice > d ∨ (twice = d ∧ quotient % 2 = 1) then quotient + 1 else quotient

/-- The quantity `± n / d` with `kept` fraction digits or, if that has too many
digits altogether, with the largest smaller number of them that fits. -/
def roundQuotient? (negative : Bool) (n d : Nat) (kept : Nat) : Option Decimal :=
  match ofParts? negative (divNearest (n * powerOfTen kept) d) kept with
  | some result => some result
  | none => match kept with
    | 0 => none
    | kept + 1 => roundQuotient? negative n d kept

/-- The quantity `± magnitude / 10 ^ scale`, rounded only if it does not fit. -/
def round? (negative : Bool) (magnitude scale : Nat) : Option Decimal :=
  roundQuotient? negative magnitude (powerOfTen scale) (min scale maxScale)

/-- The sum. Adding zero gives the other operand as it stands, and a sum that
cancels keeps the sign of its left operand. -/
def add? (a b : Decimal) : Option Decimal :=
  if a.isZero then some b
  else if b.isZero then some a
  else
    let digits := max a.scale b.scale
    let total := a.signedAt digits + b.signedAt digits
    if total = 0 then
      some ⟨a.negative, 0, digits, coefficientBound_pos,
        Nat.max_le.2 ⟨a.scale_le, b.scale_le⟩⟩
    else round? (total < 0) total.natAbs digits

def sub? (a b : Decimal) : Option Decimal :=
  if b.isZero then if a.isZero then some b else some a
  else add? a b.negate

def mul? (a b : Decimal) : Option Decimal :=
  if a.isZero || b.isZero then some zero
  else round? (a.negative != b.negative) (a.coefficient * b.coefficient) (a.scale + b.scale)

/-- The quotient by a number other than zero. A quotient of the coefficients that
leaves no remainder keeps the difference of the scales; any other has no zeros at
the end of its fraction. -/
def div? (a b : Decimal) : Option Decimal :=
  let negative := a.negative != b.negative
  if a.isZero then some zero
  else if a.coefficient % b.coefficient = 0 then
    round? negative (a.coefficient / b.coefficient * powerOfTen (b.scale - a.scale))
      (a.scale - b.scale)
  else
    (roundQuotient? negative (a.coefficient * powerOfTen b.scale)
      (b.coefficient * powerOfTen a.scale) maxScale).map normalize

/-- What is left of `a` after taking away a whole number of times `b`; it has the
sign of `a`. -/
def rem? (a b : Decimal) : Option Decimal :=
  let digits := max a.scale b.scale
  let left := (a.signedAt digits).natAbs
  let right := (b.signedAt digits).natAbs
  if left < right then some a
  else ofParts? a.negative (left % right) digits

example : divNearest 25 10 = 2 ∧ divNearest 35 10 = 4 ∧ divNearest 26 10 = 3 := by decide

end Questionnaire.Decimal
