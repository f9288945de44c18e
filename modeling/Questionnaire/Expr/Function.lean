import Questionnaire.Text.Cut
import Questionnaire.Value.Arithmetic

/-! Functions that conditions may call. A table holds at most one function per name;
registering a name again replaces its function. The two-argument comparisons and
connectives are marked positional: they are the only ones that the reduction of
ill-formed expressions may call. -/
namespace Questionnaire

structure Function where
  name : String
  leastArgs : Nat
  /-- Without it the function takes any number of arguments from `leastArgs` on. -/
  mostArgs : Option Nat
  positional : Bool
  call : List Value → Except EvalError Value

namespace Function

def accepts (f : Function) (count : Nat) : Bool :=
  f.leastArgs ≤ count && f.mostArgs.all (count ≤ ·)

def arityError (f : Function) (count : Nat) : EvalError :=
  .arity f.name f.leastArgs f.mostArgs count

def unary (name : String) (body : Value → Except EvalError Value) : Function where
  name := name
  leastArgs := 1
  mostArgs := some 1
  positional := false
  call
    | [a] => body a
    | args => .error (.arity name 1 (some 1) args.length)

def binary (name : String) (positional : Bool) (body : Value → Value → Except EvalError Value) :
    Function where
  name := name
  leastArgs := 2
  mostArgs := some 2
  positional := positional
  call
    | [a, b] => body a b
    | args => .error (.arity name 2 (some 2) args.length)

/-- A positional function whose result is a truth value. -/
def relation (name : String) (holds : Value → Value → Bool) : Function :=
  binary name true fun a b => .ok (.bool (holds a b))

/-- An order relation is false while either side is unanswered. -/
def ordered (accept : Ordering → Bool) (a b : Value) : Bool :=
  !a.isEmpty && !b.isEmpty && accept (a.looseCmp b)

def contains (a b : Value) : Bool :=
  match a with
  | .list items => items.any (·.looseEq b)
  | .null => false
  | haystack => Text.containsLiteral b.display.toList haystack.display.toList

def between (v low high : Value) : Bool :=
  !v.isEmpty && v.looseCmp low != .lt && v.looseCmp high != .gt

def count : Value → Nat
  | .list items => items.length
  | v => if v.isEmpty then 0 else 1

def isIn : List Value → Except EvalError Value
  | needle :: candidates => .ok (.bool (candidates.any needle.looseEq))
  | [] => .error (.arity "in" 2 none 0)

def yearMonth : List Value → Except EvalError Value
  | [v] =>
    match v.asYearMonth? with
    | some m => .ok (.yearMonth m)
    | none => .error (.notYearMonth v)
  | [y, m] =>
    match y.asNumber?.bind Decimal.toInt32? with
    | none => .error (.notYear y)
    | some year =>
      match m.asNumber?.bind Decimal.toUInt32? with
      | none => .error (.notMonth m)
      | some month =>
        match YearMonth.of? year month with
        | some ym => .ok (.yearMonth ym)
        | none => .error (.noSuchMonth year month)
  | args => .error (.arity "ym" 1 (some 2) args.length)

def addMonths (start months : Value) : Except EvalError Value :=
  match start.asYearMonth? with
  | none => .error (.notYearMonth start)
  | some m => do Value.shiftMonths m (← months.wholeMonths)

/-- A month, also one that only the text of the value names. -/
def readMonth (v : Value) : Except EvalError YearMonth :=
  match v.asYearMonth?.or (YearMonth.read? v.display) with
  | some m => .ok m
  | none => .error (.notYearMonth v)

def monthsBetween (start finish : Value) : Except EvalError Value := do
  let start ← readMonth start
  let finish ← readMonth finish
  return .number (Decimal.ofInt (start.monthsUntil finish))

def builtin : List Function := [
  relation "equals" Value.looseEq,
  relation "notEquals" fun a b => !(a.looseEq b),
  relation "greaterThan" (ordered (· == .gt)),
  relation "greaterOrEqual" (ordered (· != .lt)),
  relation "lessThan" (ordered (· == .lt)),
  relation "lessOrEqual" (ordered (· != .gt)),
  relation "and" fun a b => a.truthy && b.truthy,
  relation "or" fun a b => a.truthy || b.truthy,
  relation "contains" contains,
  unary "not" fun v => .ok (.bool !v.truthy),
  unary "answered" fun v => .ok (.bool !v.isEmpty),
  unary "empty" fun v => .ok (.bool v.isEmpty),
  binary "valueOr" false fun v other => .ok (if v.isEmpty then other else v),
  ⟨"in", 2, none, false, isIn⟩,
  ⟨"between", 3, some 3, false, fun
    | [v, low, high] => .ok (.bool (between v low high))
    | args => .error (.arity "between" 3 (some 3) args.length)⟩,
  unary "count" fun v => .ok (.number (Decimal.ofNat (count v))),
  unary "num" fun v => .ok ((v.asNumber?.map Value.number).getD .null),
  ⟨"ym", 1, some 2, false, yearMonth⟩,
  binary "addMonths" false addMonths,
  binary "monthsBetween" false monthsBetween]

end Function

/-- Functions by name; an earlier one hides a later one of the same name. -/
structure FunctionTable where
  functions : List Function

namespace FunctionTable

def builtin : FunctionTable := ⟨Function.builtin⟩

def find? (table : FunctionTable) (name : String) : Option Function :=
  table.functions.find? (·.name == name)

def findPositional? (table : FunctionTable) (name : String) : Option Function :=
  (table.find? name).filter (·.positional)

/-- Adds a function of the host program, which is never positional. -/
def register (table : FunctionTable) (name : String) (leastArgs : Nat) (mostArgs : Option Nat)
    (call : List Value → Except EvalError Value) : FunctionTable :=
  ⟨⟨name, leastArgs, mostArgs, false, call⟩ :: table.functions⟩

def call (table : FunctionTable) (name : String) (args : List Value) : Except EvalError Value :=
  match table.find? name with
  | none => .error (.unknownFunction name)
  | some f => if f.accepts args.length then f.call args else .error (f.arityError args.length)

end FunctionTable

end Questionnaire
