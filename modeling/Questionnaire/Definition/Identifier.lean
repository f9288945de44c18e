import Questionnaire.Text.Cut
import Questionnaire.Text.Numeral

/-! Identifiers of questions and of the markers that loop expansion leaves behind. A
marker stands after every iteration of a loop, and one more after the last; copies
of a question in iteration `i` carry the iteration twice behind their stem. -/
namespace Questionnaire

open Text

/-- The reserved last question. -/
def terminalId : String := "END"

def isQuestionIdStart (c : Char) : Bool := c.isUpper || c == '_'

def isQuestionIdChar (c : Char) : Bool := c.isUpper || c.isDigit || c == '_'

/-- A question identifier at the front of a text, and the rest. -/
def takeQuestionId? : List Char → Option (List Char × List Char)
  | c :: cs =>
    if isQuestionIdStart c then
      some (c :: cs.takeWhile isQuestionIdChar, cs.dropWhile isQuestionIdChar)
    else none
  | [] => none

/-- The shape of a name that answers can be looked up by. -/
def isIdentifier (s : String) : Bool :=
  match s.toList with
  | c :: cs =>
    (c.isAlpha || c == '_') && cs.all fun c => c.isAlphanum || c == '_' || c == '.'
  | [] => false

def iterationSuffix (iteration : Nat) : String :=
  "_" ++ toString iteration ++ "_" ++ toString iteration

/-- The identifier that a stem has in an iteration. -/
def iterationId (stem : String) (iteration : Nat) : String := stem ++ iterationSuffix iteration

inductive LoopMarker where
  | continuation (loopIndex iteration : Nat)
  | endOfLoop (loopIndex : Nat)
deriving DecidableEq

namespace LoopMarker

def continuationStem : String := "__CONT_"
def endStem : String := "__ENDLOOP_"

def id : LoopMarker → String
  | continuation loopIndex iteration =>
    continuationStem ++ toString loopIndex ++ "_" ++ toString iteration
  | endOfLoop loopIndex => endStem ++ toString loopIndex

def ofId? (s : String) : Option LoopMarker :=
  match stripLeading? continuationStem.toList s.toList with
  | some rest => do
    let (loopPart, iterationPart) ← cutAtChars? (· == '_') rest
    let loopIndex ← readUnsigned? largestUInt64 loopPart
    let iteration ← readUnsigned? largestUInt32 iterationPart
    return continuation loopIndex iteration
  | none => do
    let rest ← stripLeading? endStem.toList s.toList
    return endOfLoop (← readUnsigned? largestUInt64 rest)

def isContinuation (s : String) : Bool :=
  match ofId? s with
  | some (continuation _ _) => true
  | _ => false

end LoopMarker

end Questionnaire
