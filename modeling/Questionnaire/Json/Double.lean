import Questionnaire.Text.Numeral

/-! Text of binary floating point numbers: the shortest digits that read back as the
number, of those the ones nearest to it. All steps are exact; a double is a
mantissa times a power of two, and the numbers that read back as it lie between
the midpoints to its neighbours. -/
namespace Questionnaire.Json.Double

open Text

/-- The quantity `mantissa * 2 ^ exponent` without its sign. -/
structure Parts where
  negative : Bool
  mantissa : Nat
  exponent : Int
  /-- The next smaller double is only half as far away as the next larger one. -/
  atPowerOfTwo : Bool

/-- The sign stands in the highest bit, the fraction in the lowest fifty-two and the exponent
between them. A mantissa is the fraction with a one in front, except at the lowest exponent. -/
def parts (bits : UInt64) : Parts :=
  let biased := (bits >>> 52).toNat % 0x800
  let fraction := bits.toNat % 0x10000000000000
  let negative := bits >>> 63 == 1
  if biased = 0 then ⟨negative, fraction, -1074, false⟩
  else ⟨negative, fraction + 0x10000000000000, biased - 1075, fraction == 0 && biased > 1⟩

/-- A quantity and the bounds of the interval that reads back as it, over one
denominator. -/
structure Interval where
  low : Nat
  value : Nat
  high : Nat
  denominator : Nat
  closed : Bool

def interval (p : Parts) : Interval :=
  let numerator := 1 <<< (p.exponent - 2).toNat
  ⟨(4 * p.mantissa - if p.atPowerOfTwo then 1 else 2) * numerator, 4 * p.mantissa * numerator,
    (4 * p.mantissa + 2) * numerator, 1 <<< (2 - p.exponent).toNat, p.mantissa % 2 == 0⟩

namespace Interval

variable (i : Interval)

/-- Whether `n * 10 ^ power` reads back as the quantity. -/
def reads (n : Nat) (power : Int) : Bool :=
  let scaled := n * powerOfTen power.toNat * i.denominator
  let unit := powerOfTen (-power).toNat
  if i.closed then i.low * unit ≤ scaled && scaled ≤ i.high * unit
  else i.low * unit < scaled && scaled < i.high * unit

/-- The neighbour of the quantity on the grid of multiples of `10 ^ power` that reads
back as it; of two the nearer. -/
def onGrid? (power : Int) : Option Nat :=
  let step := powerOfTen power.toNat * i.denominator
  let scaled := i.value * powerOfTen (-power).toNat
  let below := scaled / step
  match i.reads below power && below != 0, i.reads (below + 1) power with
  | true, true => if 2 * (scaled % step) ≤ step then some below else some (below + 1)
  | true, false => some below
  | false, true => some (below + 1)
  | false, false => none

/-- Tries finer and finer grids. -/
def shortest (power : Int) : Nat → Nat × Int
  | 0 => ((i.onGrid? power).getD 0, power)
  | finer + 1 =>
    match i.onGrid? power with
    | some n => (n, power)
    | none => shortest (power - 1) finer

end Interval

/-- A power of ten above the quantity, but not above ten times it, for a quantity
other than zero. -/
def magnitude (numerator denominator : Nat) : Int :=
  if numerator ≥ denominator then (Nat.toDigits 10 (numerator / denominator)).length
  else 1 - ((Nat.toDigits 10 (denominator / numerator)).length : Int)

/-- How a double with the given digits and power of ten is written: positionally from
`0.00001` up to sixteen digits before the point, with an exponent otherwise. -/
def layout (digits : List Char) (power : Int) : List Char :=
  let point := digits.length + power
  if 0 ≤ power ∧ point ≤ 16 then
    digits ++ List.replicate power.toNat '0' ++ ['.', '0']
  else if 0 < point ∧ point ≤ 16 then
    digits.take point.toNat ++ '.' :: digits.drop point.toNat
  else if -5 < point ∧ point ≤ 0 then
    '0' :: '.' :: (List.replicate (-point).toNat '0' ++ digits)
  else
    let exponent := 'e' :: (toString (point - 1)).toList
    match digits with
    | [d] => d :: exponent
    | d :: more => d :: '.' :: (more ++ exponent)
    | [] => exponent

def strip (n : Nat) (power : Int) : Nat → Nat × Int
  | 0 => (n, power)
  | steps + 1 => if n % 10 = 0 ∧ n ≠ 0 then strip (n / 10) (power + 1) steps else (n, power)

def text (bits : UInt64) : String :=
  let p := parts bits
  let sign := if p.negative then ['-'] else []
  if p.mantissa = 0 then String.ofList (sign ++ ['0', '.', '0'])
  else
    let i := interval p
    let (n, power) := i.shortest (magnitude i.value i.denominator) 18
    let (n, power) := strip n power 18
    String.ofList (sign ++ layout (Nat.toDigits 10 n) power)

end Questionnaire.Json.Double
