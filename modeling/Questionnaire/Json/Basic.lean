import Questionnaire.Dict

/-! JSON values. The fields of an object stand in ascending order of their names, no
name twice; numbers are words of sixty-four bits, whole or binary floating point. -/
namespace Questionnaire

inductive Json.Number where
  | integer (n : Int)
  /-- A finite double, by its bits. -/
  | double (bits : UInt64)
deriving DecidableEq

inductive Json where
  | null
  | bool (b : Bool)
  | number (n : Json.Number)
  | text (s : String)
  | array (items : List Json)
  | object (fields : List (String × Json))

namespace Json

def nat (n : Nat) : Json := number (.integer n)

def int (n : Int) : Json := number (.integer n)

/-- Of two fields with one name the later one counts. -/
def ofFields (fields : List (String × Json)) : Json :=
  object (Dict.ofList fields).entries

def ofDict (d : Dict Json) : Json := object d.entries

def field? (name : String) : Json → Option Json
  | object fields => fields.lookup name
  | _ => none

def ofOption {α : Type} (write : α → Json) : Option α → Json
  | some a => write a
  | none => null

def ofTexts (items : List String) : Json := array (items.map text)

def text? : Json → Option String
  | text s => some s
  | _ => none

def array? : Json → Option (List Json)
  | array items => some items
  | _ => none

def object? : Json → Option (List (String × Json))
  | object fields => some fields
  | _ => none

def bool? : Json → Option Bool
  | bool b => some b
  | _ => none

def int? : Json → Option Int
  | number (.integer n) => some n
  | _ => none

def nat? (j : Json) : Option Nat := j.int?.bind Int.toNat?

/-- A list whose items are all texts. -/
def texts? (j : Json) : Option (List String) := j.array?.bind (·.mapM text?)

/-- The fields of a structure by name: an object holds them so, a list holds the first
ones in the order of `names` and nothing else. -/
def fieldsOf? (names : List String) : Json → Option (String → Option Json)
  | object fields => some fun name => fields.lookup name
  | array items =>
    if items.length ≤ names.length then some fun name => (names.zip items).lookup name else none
  | _ => none

end Json

end Questionnaire
