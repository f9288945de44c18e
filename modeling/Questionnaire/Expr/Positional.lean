import Questionnaire.Decimal.Reader
import Questionnaire.Expr.Basic
import Questionnaire.Expr.Evaluation
import Questionnaire.Text.Blank

/-! Reduction of texts that are no expressions but still consist of nested
two-argument calls. The text is cut at parentheses and commas; at every closing
parenthesis the five tokens before it must be a call of a positional function, and
the value of the call takes their place. One token must be left in the end. A token
may be any text: it stands for a constant if it looks like one, else for an answer,
else for the empty text. -/
namespace Questionnaire.Positional

open Text

inductive Token where
  | openParen
  | closeParen
  | comma
  | raw (s : String)
  | resolved (v : Value)

def Token.text : Token → String
  | openParen => "("
  | closeParen => ")"
  | comma => ","
  | raw s => s
  | resolved v => "<" ++ v.display ++ ">"

def structural? : Char → Option Token
  | '(' => some .openParen
  | ')' => some .closeParen
  | ',' => some .comma
  | _ => none

/-- The token between two structural ones, none if there are only blanks. -/
def rawTokens (cs : List Char) : List Token :=
  match trimChars cs with
  | [] => []
  | trimmed => [.raw (String.ofList trimmed)]

/-- The tokens of a text, given the characters since the last structural one in
reverse. -/
def tokensFrom (pending : List Char) : List Char → List Token
  | [] => rawTokens pending.reverse
  | c :: cs =>
    match structural? c with
    | some token => rawTokens pending.reverse ++ token :: tokensFrom [] cs
    | none => tokensFrom (c :: pending) cs

def tokens (s : String) : List Token := tokensFrom [] s.toList

/-- The text between two equal quotes. -/
def unquote? (quote : Char) (cs : List Char) : Option String :=
  match cs with
  | first :: rest =>
    if first == quote then (stripTrailing? [quote] rest).map String.ofList else none
  | [] => none

def resolve (source : Source) (s : String) : Value :=
  if s == "null" || s == "undefined" then .null
  else if s == "true" then .bool true
  else if s == "false" then .bool false
  else if s == loopIndexToken then .text loopIndexToken
  else
    match Decimal.read? s with
    | some n => .number n
    | none =>
      match (unquote? '"' s.toList).or (unquote? '\'' s.toList) with
      | some inner => .text inner
      | none => (source s).getD (.text "")

def Token.value? (source : Source) : Token → Option Value
  | raw s => some (resolve source s)
  | resolved v => some v
  | openParen | closeParen | comma => none

inductive Failure where
  | missingArguments
  | notACall
  | unknownFunction (name : String)
  | malformedArguments
  | function (cause : EvalError)
  | notOneValue

def Failure.message : Failure → String
  | missingArguments => "call is missing its arguments"
  | notACall => "expected name(argument,argument)"
  | unknownFunction name => "unknown function '" ++ name ++ "'"
  | malformedArguments => "malformed arguments"
  | function cause => cause.message
  | notOneValue => "expression did not reduce to one value"

/-- Why the reduction stopped, and all tokens at that point. -/
structure ReductionError where
  failure : Failure
  stack : List Token

namespace ReductionError

def stackText (e : ReductionError) : String := " ".intercalate (e.stack.map Token.text)

def text (e : ReductionError) : String :=
  e.failure.message ++ " (tokens: " ++ e.stackText ++ ")"

end ReductionError

variable (functions : FunctionTable) (source : Source)

/-- The value of the call whose tokens, last one first, are on top of the stack, and
what lies below them. -/
def reduceCall (stack : List Token) : Except Failure (Value × List Token) :=
  match stack with
  | second :: .comma :: first :: .openParen :: .raw name :: below =>
    match functions.findPositional? name with
    | none => .error (.unknownFunction name)
    | some f =>
      match first.value? source, second.value? source with
      | some a, some b =>
        match f.call [a, b] with
        | .ok v => .ok (v, below)
        | .error cause => .error (.function cause)
      | _, _ => .error .malformedArguments
  | _ :: _ :: _ :: _ :: _ :: _ => .error .notACall
  | _ => .error .missingArguments

/-- Moves token after token onto the stack, last one first, and reduces at every
closing parenthesis. -/
def reduceTokens (stack : List Token) : List Token → Except ReductionError Value
  | [] =>
    match stack with
    | [token] =>
      match token.value? source with
      | some v => .ok v
      | none => .error ⟨.notOneValue, stack.reverse⟩
    | _ => .error ⟨.notOneValue, stack.reverse⟩
  | .closeParen :: rest =>
    match reduceCall functions source stack with
    | .ok (v, below) => reduceTokens (.resolved v :: below) rest
    | .error failure => .error ⟨failure, stack.reverse ++ .closeParen :: rest⟩
  | token :: rest => reduceTokens (token :: stack) rest

def reduce (s : String) : Except ReductionError Value :=
  reduceTokens functions source [] (tokens s)

end Questionnaire.Positional
