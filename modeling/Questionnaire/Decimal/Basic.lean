import Questionnaire.Text.Numeral

/-! Decimal numbers of bounded precision: a sign, a coefficient below `2 ^ 96` and up
to twenty-eight fraction digits. A number keeps the fraction digits it was given;
two numbers are the same quantity when they agree after scaling to a common
number of fraction digits, which is what `compare` looks at. -/
namespace Questionnaire

/-- A coefficient is smaller than this. -/
abbrev Decimal.coefficientBound : Nat := 0x1000000000000000000000000

/-- A number has at most this many fraction digits. -/
abbrev Decimal.maxScale : Nat := 28

/-- The quantity `± coefficient / 10 ^ scale`. -/
structure Decimal where
  negative : Bool
  coefficient : Nat
  scale : Nat
  coefficient_lt : coefficient < Decimal.coefficientBound
  scale_le : scale ≤ Decimal.maxScale
deriving DecidableEq

namespace Decimal

open Text

/-- The number with the given parts, if they are within the bounds. A zero has no sign. -/
def ofParts? (negative : Bool) (coefficient scale : Nat) : Option Decimal :=
  if h : coefficient < coefficientBound ∧ scale ≤ maxScale then
    some ⟨negative && coefficient != 0, coefficient, scale, h.1, h.2⟩
  else none

theorem coefficientBound_pos : 0 < coefficientBound := by decide

def zero : Decimal := ⟨false, 0, 0, coefficientBound_pos, Nat.zero_le _⟩

theorem min_lt (n : Nat) : min n (coefficientBound - 1) < coefficientBound :=
  Nat.lt_of_le_of_lt (Nat.min_le_right _ _) (by decide)

/-- A count; one beyond the largest number reads as the largest number. -/
def ofNat (n : Nat) : Decimal :=
  ⟨false, min n (coefficientBound - 1), 0, min_lt n, Nat.zero_le _⟩

/-- A whole number; one beyond the largest magnitude reads as that magnitude. -/
def ofInt (n : Int) : Decimal :=
  ⟨n < 0, min n.natAbs (coefficientBound - 1), 0, min_lt n.natAbs, Nat.zero_le _⟩

def isZero (d : Decimal) : Bool := d.coefficient == 0

def signed (d : Decimal) : Int := if d.negative then -(d.coefficient : Int) else d.coefficient

/-- The coefficient the number has when it is written with `digits` fraction
digits, for a `digits` no smaller than its scale. -/
def signedAt (d : Decimal) (digits : Nat) : Int := d.signed * powerOfTen (digits - d.scale)

def compare (a b : Decimal) : Ordering :=
  Ord.compare (a.signedAt (max a.scale b.scale)) (b.signedAt (max a.scale b.scale))

def sameQuantity (a b : Decimal) : Bool := a.compare b == .eq

def negate (d : Decimal) : Decimal := { d with negative := !d.negative }

/-- The whole part, rounded toward zero, without its sign. -/
def wholePart (d : Decimal) : Nat := d.coefficient / powerOfTen d.scale

def isWhole (d : Decimal) : Bool := d.coefficient % powerOfTen d.scale == 0

def truncated (d : Decimal) : Int := if d.negative then -(d.wholePart : Int) else d.wholePart

/-- The whole part, if it fits a signed word of sixty-four bits. -/
def toInt64? (d : Decimal) : Option Int64 :=
  if -(largestInt64 : Int) - 1 ≤ d.truncated ∧ d.truncated ≤ largestInt64 then
    some (Int64.ofInt d.truncated)
  else none

/-- The whole part, if it fits a signed word of thirty-two bits. -/
def toInt32? (d : Decimal) : Option Int :=
  if -(largestInt32 : Int) - 1 ≤ d.truncated ∧ d.truncated ≤ largestInt32 then some d.truncated
  else none

/-- The whole part, if there is no sign and it fits a word of thirty-two bits. -/
def toUInt32? (d : Decimal) : Option Nat :=
  if d.negative = false ∧ d.wholePart ≤ largestUInt32 then some d.wholePart else none

/-- Drops zeros from the end of the coefficient while fraction digits are left. -/
def stripZeros (coefficient : Nat) : Nat → Nat × Nat
  | 0 => (coefficient, 0)
  | scale + 1 =>
    if coefficient % 10 = 0 then stripZeros (coefficient / 10) scale
    else (coefficient, scale + 1)

theorem stripZeros_bounds (coefficient scale : Nat) :
    (stripZeros coefficient scale).1 ≤ coefficient ∧ (stripZeros coefficient scale).2 ≤ scale := by
  induction scale generalizing coefficient with
  | zero => simp [stripZeros]
  | succ scale ih =>
    unfold stripZeros
    split
    · have := ih (coefficient / 10)
      omega
    · simp

/-- The same quantity with the fewest fraction digits; zero loses its sign. -/
def normalize (d : Decimal) : Decimal :=
  have h := stripZeros_bounds d.coefficient d.scale
  ⟨d.negative && d.coefficient != 0,
    (stripZeros d.coefficient d.scale).1, (stripZeros d.coefficient d.scale).2,
    Nat.lt_of_le_of_lt h.1 d.coefficient_lt, Nat.le_trans h.2 d.scale_le⟩

/-- Sign, whole part and, if there are fraction digits, a point and all of them. -/
def text (d : Decimal) : String :=
  let digits := Nat.toDigits 10 d.coefficient
  let filled := List.replicate (d.scale + 1 - digits.length) '0' ++ digits
  let whole := filled.take (filled.length - d.scale)
  let fraction := filled.drop (filled.length - d.scale)
  String.ofList ((if d.negative then ['-'] else []) ++ whole ++
    (if fraction.isEmpty then [] else '.' :: fraction))

/-- The text of the quantity, whatever fraction digits it was given. -/
def plainText (d : Decimal) : String := d.normalize.text

theorem compare_swap (a b : Decimal) : (a.compare b).swap = b.compare a := by
  simp only [compare, Nat.max_comm b.scale a.scale]
  exact Std.OrientedCmp.eq_swap.symm

end Decimal

end Questionnaire
