/-! Whole numbers written in ASCII digits: values of digit lists and the readers
that accept an optional sign and refuse a number outside a given range. -/
namespace Questionnaire.Text

def digitValue (c : Char) : Nat := c.toNat - '0'.toNat

/-- The value of a list of digits, most significant first. -/
def digitsValue (cs : List Char) : Nat := cs.foldl (fun n c => 10 * n + digitValue c) 0

/-- The value of a one with `n` zeros behind it. -/
def powerOfTen (n : Nat) : Nat := Nat.pow 10 n

/-- One digit or more and nothing else. -/
def readDigits? (cs : List Char) : Option Nat :=
  if !cs.isEmpty && cs.all Char.isDigit then some (digitsValue cs) else none

/-- A number without a minus sign, at most `largest`. -/
def readUnsigned? (largest : Nat) (cs : List Char) : Option Nat :=
  let digits := match cs with
    | '+' :: rest => rest
    | _ => cs
  (readDigits? digits).filter (· ≤ largest)

/-- A number between `-largest - 1` and `largest`. -/
def readSigned? (largest : Nat) (cs : List Char) : Option Int :=
  match cs with
  | '-' :: rest => ((readDigits? rest).filter (· ≤ largest + 1)).map fun n => -(n : Int)
  | _ => (readUnsigned? largest cs).map Int.ofNat

def largestUInt32 : Nat := 0xFFFFFFFF
def largestUInt64 : Nat := 0xFFFFFFFFFFFFFFFF
def largestInt32 : Nat := 0x7FFFFFFF
def largestInt64 : Nat := 0x7FFFFFFFFFFFFFFF

def readUInt32? (s : String) : Option Nat := readUnsigned? largestUInt32 s.toList
def readUInt64? (s : String) : Option Nat := readUnsigned? largestUInt64 s.toList

/-- Decimal digits, filled up with zeros on the left to at least `width`. -/
def padZeros (width : Nat) (digits : String) : String :=
  String.ofList (List.replicate (width - digits.length) '0') ++ digits

/-- A whole number with its sign in front of the digits; the sign counts in the width. -/
def signedDigits (width : Nat) (n : Int) : String :=
  if n < 0 then "-" ++ padZeros (width - 1) (toString n.natAbs)
  else padZeros width (toString n.natAbs)

example : readUnsigned? 10 "+7".toList = some 7 ∧ readUnsigned? 6 ['7'] = none ∧
    readSigned? 127 "-128".toList = some (-128) ∧ readDigits? [] = none := by decide

end Questionnaire.Text
