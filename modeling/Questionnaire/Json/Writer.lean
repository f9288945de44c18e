import Questionnaire.Json.Basic
import Questionnaire.Json.Double

/-! Writing JSON without blanks. -/
namespace Questionnaire.Json

def Number.text : Number → String
  | integer n => toString n
  | double bits => Double.text bits

def hexDigit (n : Nat) : Char := Nat.digitChar n

def escape (c : Char) : List Char :=
  if c == '"' then ['\\', '"']
  else if c == '\\' then ['\\', '\\']
  else if c == '\n' then ['\\', 'n']
  else if c == '\r' then ['\\', 'r']
  else if c == '\t' then ['\\', 't']
  else if c == '\x08' then ['\\', 'b']
  else if c == '\x0c' then ['\\', 'f']
  else if c.toNat < 0x20 then
    ['\\', 'u', '0', '0', hexDigit (c.toNat / 16), hexDigit (c.toNat % 16)]
  else [c]

def quote (s : String) : String :=
  if s.all fun c => c != '"' && c != '\\' && c.toNat ≥ 0x20 then "\"" ++ s ++ "\""
  else "\"" ++ String.ofList (s.toList.flatMap escape) ++ "\""

mutual

/-- The text so far followed by a value. -/
def write (out : String) : Json → String
  | null => out ++ "null"
  | bool b => out ++ if b then "true" else "false"
  | number n => out ++ n.text
  | text s => out ++ quote s
  | array items => (writeItems (out.push '[') true items).push ']'
  | object fields => (writeFields (out.push '{') true fields).push '}'

def writeItems (out : String) (first : Bool) : List Json → String
  | [] => out
  | item :: items => writeItems (write (if first then out else out.push ',') item) false items

def writeFields (out : String) (first : Bool) : List (String × Json) → String
  | [] => out
  | (name, value) :: fields =>
    writeFields (write ((if first then out else out.push ',') ++ quote name ++ ":") value)
      false fields

end

def render (j : Json) : String := write "" j

end Questionnaire.Json
