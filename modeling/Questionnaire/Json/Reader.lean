import Questionnaire.Json.Basic
import Questionnaire.Text.Numeral

/-! Reading JSON. A text is one value with blanks around it; of two fields with one
name the later one counts. Whole numbers that fit a word stay whole, all others
become doubles. Values nested more than a hundred and twenty-seven levels deep are
refused. -/
namespace Questionnaire.Json

open Text

def isBlank (c : Char) : Bool := c == ' ' || c == '\t' || c == '\n' || c == '\r'

def skipBlanks (cs : List Char) : List Char := cs.dropWhile isBlank

def hexValue? (c : Char) : Option Nat :=
  if c.isDigit then some (c.toNat - 48)
  else if 'a' ≤ c ∧ c ≤ 'f' then some (c.toNat - 87)
  else if 'A' ≤ c ∧ c ≤ 'F' then some (c.toNat - 55)
  else none

def hexUnit? (a b c d : Char) : Option Nat := do
  return (((← hexValue? a) * 16 + (← hexValue? b)) * 16 + (← hexValue? c)) * 16 + (← hexValue? d)

def escaped? : Char → Option Char
  | '"' => some '"'
  | '\\' => some '\\'
  | '/' => some '/'
  | 'b' => some '\x08'
  | 'f' => some '\x0c'
  | 'n' => some '\n'
  | 'r' => some '\r'
  | 't' => some '\t'
  | _ => none

def isHighSurrogate (n : Nat) : Bool := 0xD800 ≤ n && n < 0xDC00

def isLowSurrogate (n : Nat) : Bool := 0xDC00 ≤ n && n < 0xE000

def joinSurrogates (high low : Nat) : Char :=
  Char.ofNat (0x10000 + (high - 0xD800) * 0x400 + (low - 0xDC00))

/-- The characters of a text up to its closing quote, given those before in reverse. -/
def takeText? (read : List Char) : List Char → Option (String × List Char)
  | [] => none
  | '"' :: rest => some (String.ofList read.reverse, rest)
  | '\\' :: 'u' :: a :: b :: c :: d :: rest =>
    match hexUnit? a b c d with
    | none => none
    | some unit =>
      if isLowSurrogate unit then none
      else if isHighSurrogate unit then
        match rest with
        | '\\' :: 'u' :: e :: f :: g :: h :: rest =>
          match hexUnit? e f g h with
          | none => none
          | some low =>
            if isLowSurrogate low then takeText? (joinSurrogates unit low :: read) rest else none
        | _ => none
      else takeText? (Char.ofNat unit :: read) rest
  | '\\' :: c :: rest =>
    match escaped? c with
    | some c => takeText? (c :: read) rest
    | none => none
  | c :: rest => if c.toNat < 0x20 then none else takeText? (c :: read) rest

theorem takeText?_length {read cs rest : List Char} {s : String}
    (h : takeText? read cs = some (s, rest)) : rest.length < cs.length := by
  fun_induction takeText? read cs <;> simp_all <;> omega

/-- The leading digits of a number with the power of ten that the digits beyond a
word of sixty-four bits stand for. -/
structure Significand where
  value : Nat := 0
  power : Int := 0
  full : Bool := false

namespace Significand

def pushWhole (s : Significand) (c : Char) : Significand :=
  let next := 10 * s.value + digitValue c
  if s.full || next > largestUInt64 then { s with power := s.power + 1, full := true }
  else { s with value := next }

def pushFraction (s : Significand) (c : Char) : Significand :=
  let next := 10 * s.value + digitValue c
  if s.full || next > largestUInt64 then { s with full := true }
  else { s with value := next, power := s.power - 1 }

end Significand

/-- The double with the given leading digits, `none` when it is too large. Powers of
ten beyond the largest one that a double holds are taken off in steps. -/
def scaleDouble (f : Float) (power : Int) : Nat → Option Float
  | 0 => some f
  | steps + 1 =>
    if power.natAbs ≤ 308 then
      let scale := Float.ofScientific 1 false power.natAbs
      let scaled := if power ≥ 0 then f * scale else f / scale
      if scaled.isInf then none else some scaled
    else if f == 0 then some f
    else if power ≥ 0 then none
    else scaleDouble (f / Float.ofScientific 1 false 308) (power + 308) steps

/-- A number written with point or exponent, or too long for a word. -/
def double? (negative : Bool) (value : Nat) (power : Int) : Option Number :=
  (scaleDouble (Float.ofNat value) power (power.natAbs / 308 + 2)).map fun f =>
    .double (if negative then -f else f).toBits

structure Exponent where
  negative : Bool
  digits : List Char

/-- An exponent at the front of a text, if there is an `e`; `none` for an `e` without digits. -/
def takeExponent? (cs : List Char) : Option (Option Exponent × List Char) :=
  match cs with
  | c :: rest =>
    if c == 'e' || c == 'E' then
      let (negative, rest) := match rest with
        | '-' :: rest => (true, rest)
        | '+' :: rest => (false, rest)
        | rest => (false, rest)
      let digits := rest.takeWhile Char.isDigit
      if digits.isEmpty then none
      else some (some ⟨negative, digits⟩, rest.dropWhile Char.isDigit)
    else some (none, cs)
  | [] => some (none, [])

/-- The fraction digits behind a point, if there is one; `none` for a point without digits. -/
def takeFraction? (cs : List Char) : Option (Option (List Char) × List Char) :=
  match cs with
  | '.' :: rest =>
    let digits := rest.takeWhile Char.isDigit
    if digits.isEmpty then none else some (some digits, rest.dropWhile Char.isDigit)
  | _ => some (none, cs)

/-- The power of ten of an exponent; one beyond thirty-two bits decides by its sign alone. -/
def Exponent.apply (e : Exponent) (negative : Bool) (s : Significand) : Option Number :=
  let n := digitsValue e.digits
  if n > largestInt32 then
    if s.value != 0 && !e.negative then none else double? negative 0 0
  else double? negative s.value (if e.negative then s.power - n else s.power + n)

def wholeNumber? (negative : Bool) (s : Significand) : Option Number :=
  if s.full then double? negative s.value s.power
  else if !negative then some (.integer s.value)
  else if s.value = 0 || s.value > largestInt64 + 1 then double? true s.value 0
  else some (.integer (-s.value))

def takeMagnitude? (negative : Bool) (cs : List Char) : Option (Number × List Char) := do
  let whole := cs.takeWhile Char.isDigit
  if whole.isEmpty || (whole.length > 1 && whole.head? == some '0') then none
  let s : Significand := whole.foldl Significand.pushWhole {}
  let (fraction, rest) ← takeFraction? (cs.dropWhile Char.isDigit)
  let (exponent, rest) ← takeExponent? rest
  let number ← match fraction, exponent with
    | none, none => wholeNumber? negative s
    | fraction, exponent =>
      let s := (fraction.getD []).foldl Significand.pushFraction { s with full := false }
      match exponent with
      | some e => e.apply negative s
      | none => double? negative s.value s.power
  return (number, rest)

def takeNumber? : List Char → Option (Number × List Char)
  | '-' :: rest => takeMagnitude? true rest
  | cs => takeMagnitude? false cs

/-- A value without parts: a keyword, a number or a text. -/
def takeScalar? (cs : List Char) : Option (Json × List Char) :=
  match cs with
  | 'n' :: 'u' :: 'l' :: 'l' :: rest => some (null, rest)
  | 't' :: 'r' :: 'u' :: 'e' :: rest => some (bool true, rest)
  | 'f' :: 'a' :: 'l' :: 's' :: 'e' :: rest => some (bool false, rest)
  | '"' :: rest => (takeText? [] rest).map fun (s, rest) => (text s, rest)
  | cs => (takeNumber? cs).map fun (n, rest) => (number n, rest)

/-- What is left of a text when something of it has been read. -/
abbrev Rest (cs : List Char) := { rest : List Char // rest.length < cs.length }

def shorter? {α : Type} (cs : List Char) : Option (α × List Char) → Option (α × Rest cs)
  | some (a, rest) => if h : rest.length < cs.length then some (a, ⟨rest, h⟩) else none
  | none => none

/-- Blanks and then the character `c`. -/
def takeChar? (c : Char) (cs : List Char) : Option (Rest cs) :=
  match h : skipBlanks cs with
  | [] => none
  | d :: rest =>
    if d == c then
      some ⟨rest, by
        have := (List.dropWhile_sublist (p := isBlank) (l := cs)).length_le
        simp only [skipBlanks] at h
        rw [h] at this
        exact this⟩
    else none

mutual

/-- A value at most `depth` levels deep, behind optional blanks. -/
def value? (depth : Nat) (cs : List Char) : Option (Json × Rest cs) :=
  match takeChar? '[' cs, takeChar? '{' cs, depth with
  | some rest, _, depth + 1 => do
    match takeChar? ']' rest.1 with
    | some further => return (array [], ⟨further.1, Nat.lt_trans further.2 rest.2⟩)
    | none =>
      have := rest.2
      let (items, further) ← items? depth rest.1
      return (array items, ⟨further.1, Nat.lt_trans further.2 rest.2⟩)
  | none, some rest, depth + 1 => do
    match takeChar? '}' rest.1 with
    | some further => return (object [], ⟨further.1, Nat.lt_trans further.2 rest.2⟩)
    | none =>
      have := rest.2
      let (fields, further) ← fields? depth rest.1
      return (ofFields fields, ⟨further.1, Nat.lt_trans further.2 rest.2⟩)
  | some _, _, 0 => none
  | none, some _, 0 => none
  | none, none, _ => shorter? cs (takeScalar? (skipBlanks cs))
termination_by (cs.length, 0)

/-- One item or more up to the closing bracket. -/
def items? (depth : Nat) (cs : List Char) : Option (List Json × Rest cs) := do
  let (item, rest) ← value? depth cs
  match takeChar? ',' rest.1 with
  | some further =>
    have := Nat.lt_trans further.2 rest.2
    let (items, final) ← items? depth further.1
    return (item :: items, ⟨final.1, Nat.lt_trans final.2 this⟩)
  | none =>
    let further ← takeChar? ']' rest.1
    return ([item], ⟨further.1, Nat.lt_trans further.2 rest.2⟩)
termination_by (cs.length, 1)

/-- One field or more up to the closing brace. -/
def fields? (depth : Nat) (cs : List Char) : Option (List (String × Json) × Rest cs) := do
  let rest ← takeChar? '"' cs
  let (name, rest') ← shorter? rest.1 (takeText? [] rest.1)
  let colon ← takeChar? ':' rest'.1
  have hcolon := Nat.lt_trans (Nat.lt_trans colon.2 rest'.2) rest.2
  let (value, rest) ← value? depth colon.1
  have hrest := Nat.lt_trans rest.2 hcolon
  match takeChar? ',' rest.1 with
  | some further =>
    have := Nat.lt_trans further.2 hrest
    let (fields, final) ← fields? depth further.1
    return ((name, value) :: fields, ⟨final.1, Nat.lt_trans final.2 this⟩)
  | none =>
    let further ← takeChar? '}' rest.1
    return ([(name, value)], ⟨further.1, Nat.lt_trans further.2 hrest⟩)
termination_by (cs.length, 1)

end

def maxDepth : Nat := 127

def ofChars? (cs : List Char) : Option Json := do
  let (value, rest) ← value? maxDepth cs
  if (skipBlanks rest.1).isEmpty then some value else none

def read? (s : String) : Option Json := ofChars? s.toList

end Questionnaire.Json
