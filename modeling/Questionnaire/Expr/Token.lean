import Questionnaire.Decimal.Reader
import Questionnaire.Expr.Basic

/-! The words of condition expressions. Blanks separate words and mean nothing; a
word is as long as it can be. -/
namespace Questionnaire.Expr

inductive Token where
  /-- The digits of a number, not yet read. -/
  | number (digits : List Char)
  | text (s : String)
  /-- An identifier and, behind a point, a second one. -/
  | word (head : List Char) (tail : Option (List Char))
  | loopIndex
  | infixOp (op : InfixOp)
  | bang
  | openParen
  | closeParen
  | comma

namespace Token

open Text

def isBlank (c : Char) : Bool := c == ' ' || c == '\t' || c == '\n' || c == '\r'

def isIdentStart (c : Char) : Bool := c.isAlpha || c == '_'

def isIdentChar (c : Char) : Bool := c.isAlphanum || c == '_'

/-- An identifier at the front of a text, and the rest. -/
def takeIdent? : List Char → Option (List Char × List Char)
  | c :: cs => if isIdentStart c then some (c :: cs.takeWhile isIdentChar, cs.dropWhile isIdentChar)
      else none
  | [] => none

def takeNumber (cs : List Char) : List Char × List Char :=
  let whole := cs.takeWhile Char.isDigit
  match cs.dropWhile Char.isDigit with
  | '.' :: rest =>
    let fraction := rest.takeWhile Char.isDigit
    if fraction.isEmpty then (whole, '.' :: rest)
    else (whole ++ '.' :: fraction, rest.dropWhile Char.isDigit)
  | rest => (whole, rest)

/-- Up to the closing quote, with no way to write the quote itself. -/
def takeQuoted? (quote : Char) (cs : List Char) : Option (String × List Char) :=
  (cutAtChars? (· == quote) cs).map fun (inner, rest) => (String.ofList inner, rest)

def takeWord? (cs : List Char) : Option (Token × List Char) :=
  (takeIdent? cs).map fun (head, rest) =>
    match rest with
    | '.' :: more =>
      match takeIdent? more with
      | some (tail, rest) => (word head (some tail), rest)
      | none => (word head none, rest)
    | _ => (word head none, rest)

def takeSymbol? : List Char → Option (Token × List Char)
  | '|' :: '|' :: cs => some (infixOp .or, cs)
  | '&' :: '&' :: cs => some (infixOp .and, cs)
  | '=' :: '=' :: cs => some (infixOp .equal, cs)
  | '=' :: cs => some (infixOp .equal, cs)
  | '!' :: '=' :: cs => some (infixOp .notEqual, cs)
  | '!' :: cs => some (bang, cs)
  | '<' :: '>' :: cs => some (infixOp .notEqual, cs)
  | '<' :: '=' :: cs => some (infixOp .lessOrEqual, cs)
  | '<' :: cs => some (infixOp .less, cs)
  | '>' :: '=' :: cs => some (infixOp .greaterOrEqual, cs)
  | '>' :: cs => some (infixOp .greater, cs)
  | '+' :: cs => some (infixOp .add, cs)
  | '-' :: cs => some (infixOp .subtract, cs)
  | '*' :: cs => some (infixOp .multiply, cs)
  | '/' :: cs => some (infixOp .divide, cs)
  | '%' :: cs => some (infixOp .modulo, cs)
  | '(' :: cs => some (openParen, cs)
  | ')' :: cs => some (closeParen, cs)
  | ',' :: cs => some (comma, cs)
  | '$' :: 'i' :: cs => if cs.head?.any isIdentChar then none else some (loopIndex, cs)
  | _ => none

/-- The token at the front of a text that does not begin with a blank. -/
def take? (cs : List Char) : Option (Token × List Char) :=
  match cs with
  | [] => none
  | c :: rest =>
    if c.isDigit then
      let (digits, rest) := takeNumber cs
      some (number digits, rest)
    else if c == '"' || c == '\'' then
      (takeQuoted? c rest).map fun (inner, rest) => (text inner, rest)
    else if isIdentStart c then takeWord? cs
    else takeSymbol? cs

/-- The tokens of a text, `none` when some part of it is no token. -/
def ofChars? (cs : List Char) : Option (List Token) :=
  match h : cs.dropWhile isBlank with
  | [] => some []
  | c :: cs' =>
    match take? (c :: cs') with
    | none => none
    | some (token, rest) =>
      if hlt : rest.length < (c :: cs').length then
        have : rest.length < cs.length :=
          Nat.lt_of_lt_of_le hlt (h ▸ (List.dropWhile_sublist isBlank).length_le)
        (ofChars? rest).map (token :: ·)
      else none
termination_by cs.length

end Token

end Questionnaire.Expr
