import Questionnaire.Expr.Token

/-! Reading condition expressions. One level of an expression is a chain of operands
between infix operators; an operand is a primary behind any number of prefix
operators. A chain is folded from the left: each operator goes down the right side
of the tree built so far, past the operators looser than itself. Prefix operators
bind before all of them. -/
namespace Questionnaire.Expr

/-- The tree of one chain, with the operands as leaves. -/
inductive Chain where
  | operand (e : Expr)
  | node (left : Chain) (op : InfixOp) (right : Chain)

namespace Chain

/-- Adds an operator and its right operand behind the chain. -/
def attach (op : InfixOp) (operand : Expr) : Chain → Chain
  | .operand e => node (.operand e) op (.operand operand)
  | node left op' right =>
    if op'.tightness < op.tightness then node left op' (right.attach op operand)
    else node (node left op' right) op (.operand operand)

def toExpr : Chain → Expr
  | .operand e => e
  | node left op right => binary left.toExpr op right.toExpr

end Chain

/-- Tokens left over when at least one of `ts` has been read. -/
abbrev Rest (ts : List Token) := { rest : List Token // rest.length < ts.length }

namespace Rest

variable {ts : List Token}

def tail (t : Token) (ts : List Token) : Rest (t :: ts) := ⟨ts, Nat.lt_succ_self _⟩

def trans (rest : Rest ts) (further : Rest rest.1) : Rest ts :=
  ⟨further.1, Nat.lt_trans further.2 rest.2⟩

end Rest

/-- A word standing alone: a keyword, or the name of an answer. No point follows a
keyword. -/
def ofWord? (head : List Char) (tail : Option (List Char)) : Option Expr :=
  match String.ofList head, tail with
  | "true", none => some (boolean true)
  | "false", none => some (boolean false)
  | "null", none => some null
  | "undefined", none => some null
  | "true", some _ | "false", some _ | "null", some _ | "undefined", some _ => none
  | name, none => some (reference name)
  | name, some tail => some (reference (name ++ "." ++ String.ofList tail))

/-- The number that a numeral stands for, zero for one that cannot be read. -/
def literal (digits : List Char) : Expr :=
  number ((Decimal.read? (String.ofList digits)).getD Decimal.zero)

mutual

/-- A chain of operands, read as far as operators follow. -/
def level? (ts : List Token) : Option (Expr × Rest ts) := do
  let (first, rest) ← operand? ts
  let (chain, rest) ← chain? (.operand first) ts rest
  return (chain.toExpr, rest)
termination_by (ts.length, ts.length + 3)

/-- The operators and operands behind the chain built so far. -/
def chain? (chain : Chain) (ts : List Token) (rest : Rest ts) : Option (Chain × Rest ts) :=
  match rest with
  | ⟨.infixOp op :: more, h⟩ => do
    have hmore : more.length < ts.length := Nat.lt_of_succ_lt h
    let (operand, further) ← operand? more
    chain? (chain.attach op operand) ts ⟨further.1, Nat.lt_trans further.2 hmore⟩
  | rest => some (chain, rest)
termination_by (ts.length, rest.1.length)

def operand? (ts : List Token) : Option (Expr × Rest ts) :=
  match ts with
  | .infixOp .subtract :: more => do
    let (arg, rest) ← operand? more
    return (unary .negate arg, (Rest.tail _ more).trans rest)
  | .bang :: more => do
    let (arg, rest) ← operand? more
    return (unary .not arg, (Rest.tail _ more).trans rest)
  | ts => primary? ts
termination_by (ts.length, ts.length + 2)

def primary? (ts : List Token) : Option (Expr × Rest ts) :=
  match ts with
  | .number digits :: more => some (literal digits, Rest.tail _ more)
  | .text s :: more => some (text s, Rest.tail _ more)
  | .loopIndex :: more => some (loopIndex, Rest.tail _ more)
  | .word head none :: .openParen :: more =>
    if head.head?.any Char.isAlpha then do
      let (args, rest) ← arguments? more
      return (call (String.ofList head) args,
        (Rest.tail _ (.openParen :: more)).trans ((Rest.tail _ more).trans rest))
    else none
  | .word head tail :: more => do
    return (← ofWord? head tail, Rest.tail _ more)
  | .openParen :: more => do
    let (inner, rest) ← level? more
    match rest with
    | ⟨.closeParen :: further, h⟩ =>
      return (inner, ⟨further, by simp only [List.length_cons] at h ⊢; omega⟩)
    | _ => none
  | _ => none
termination_by (ts.length, ts.length + 1)

/-- Arguments between commas up to the closing parenthesis; there may be none. -/
def arguments? (ts : List Token) : Option (List Expr × Rest ts) :=
  match ts with
  | .closeParen :: more => some ([], Rest.tail _ more)
  | ts => moreArguments? ts
termination_by (ts.length, ts.length + 5)

/-- One argument or more up to the closing parenthesis. -/
def moreArguments? (ts : List Token) : Option (List Expr × Rest ts) := do
  let (arg, rest) ← level? ts
  match rest with
  | ⟨.comma :: further, h⟩ =>
    have hfurther : further.length < ts.length := Nat.lt_of_succ_lt h
    let (args, rest) ← moreArguments? further
    return (arg :: args, ⟨rest.1, Nat.lt_trans rest.2 hfurther⟩)
  | ⟨.closeParen :: further, h⟩ => return ([arg], ⟨further, Nat.lt_of_succ_lt h⟩)
  | _ => none
termination_by (ts.length, ts.length + 4)

end

inductive ReadError where
  /-- The text is no expression. -/
  | grammar
  /-- The text is an expression, but a number in it is too large. -/
  | badNumber
  | tooDeep (depth limit : Nat)
deriving DecidableEq

def ReadError.message : ReadError → String
  | grammar => "grammar"
  | badNumber => "bad number"
  | tooDeep depth limit =>
    "expression nesting depth " ++ toString depth ++ " exceeds limit " ++ toString limit

def Token.isUnreadable : Token → Bool
  | .number digits => (Decimal.read? (String.ofList digits)).isNone
  | _ => false

/-- The tree of a whole text, before its numbers and its depth are looked at. -/
def ofChars? (cs : List Char) : Option (Expr × List Token) := do
  let tokens ← Token.ofChars? cs
  let (e, rest) ← level? tokens
  if rest.1.isEmpty then some (e, tokens) else none

def read (maxDepth : Nat) (s : String) : Except ReadError Expr :=
  match ofChars? s.toList with
  | none => .error .grammar
  | some (e, tokens) =>
    if tokens.any Token.isUnreadable then .error .badNumber
    else if e.depth > maxDepth then .error (.tooDeep e.depth maxDepth)
    else .ok e

end Questionnaire.Expr
