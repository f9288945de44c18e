import Questionnaire.Value.Basic

/-! Equality and order of values as conditions see them. Numbers and months are
recognised inside text, a missing answer equals anything empty, and a list equals
every single value that one of its items equals. -/
namespace Questionnaire.Value

/-- Equality of two values neither of which is a list. -/
def equalsSingle (a b : Value) : Bool :=
  match a, b with
  | null, v => v.isEmpty
  | v, null => v.isEmpty
  | bool x, bool y => x == y
  | yearMonth x, v => v.asYearMonth? == some x
  | v, yearMonth x => v.asYearMonth? == some x
  | v, w =>
    match v.asNumber?, w.asNumber? with
    | some x, some y => x.sameQuantity y
    | _, _ => v.display == w.display

mutual

/-- Whether a value, or at any depth an item of it, equals the single value `b`. -/
def holds (b : Value) : Value → Bool
  | list items => anyHolds b items
  | v => equalsSingle v b

def anyHolds (b : Value) : List Value → Bool
  | [] => false
  | item :: items => holds b item || anyHolds b items

end

/-- The texts of the items in ascending order. -/
def sortedTexts (items : List Value) : List String :=
  (displayAll items).mergeSort fun a b => compareOfLessAndEq a b != .gt

def looseEq (a b : Value) : Bool :=
  match a, b with
  | null, v => v.isEmpty
  | v, null => v.isEmpty
  | list xs, list ys => sortedTexts xs == sortedTexts ys
  | list xs, v => holds v (list xs)
  | v, list ys => holds v (list ys)
  | v, w => equalsSingle v w

/-- Order by month if a month is involved and both sides name one, else by quantity
if both sides are numbers, else by text. -/
def looseCmp (a b : Value) : Ordering :=
  let byNumber :=
    match a.asNumber?, b.asNumber? with
    | some x, some y => x.compare y
    | _, _ => compareOfLessAndEq a.display b.display
  if a matches yearMonth _ || b matches yearMonth _ then
    match a.asYearMonth?, b.asYearMonth? with
    | some x, some y => x.compare y
    | _, _ => byNumber
  else byNumber

end Questionnaire.Value
