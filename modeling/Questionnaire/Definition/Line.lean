import Questionnaire.Text.Blank
import Questionnaire.Text.Cut

/-! Lines of a definition, with the line feed that ends them, and the comments among
them: a comment line is emptied but stays, so that line numbers are kept. -/
namespace Questionnaire.Definition

open Text

/-- The characters up to and including the first line feed, and the rest. -/
def takeLine : List Char → List Char × List Char
  | [] => ([], [])
  | c :: cs => if c == '\n' then ([c], cs) else ((c :: (takeLine cs).1), (takeLine cs).2)

theorem takeLine_append (cs : List Char) : (takeLine cs).1 ++ (takeLine cs).2 = cs := by
  induction cs with
  | nil => rfl
  | cons c cs ih =>
    unfold takeLine
    split
    · rfl
    · simp [ih]

theorem takeLine_rest_length (c : Char) (cs : List Char) :
    (takeLine (c :: cs)).2.length < (c :: cs).length := by
  have hpos : (takeLine (c :: cs)).1 ≠ [] := by
    unfold takeLine
    split <;> simp
  have happ := congrArg List.length (takeLine_append (c :: cs))
  have := List.length_pos_iff.2 hpos
  simp only [List.length_append] at happ
  omega

/-- The lines of a text; joined they are the text. -/
def lines (cs : List Char) : List (List Char) :=
  match cs with
  | [] => []
  | c :: rest =>
    (takeLine (c :: rest)).1 :: lines (takeLine (c :: rest)).2
termination_by cs.length
decreasing_by exact takeLine_rest_length c rest

def isComment (line : List Char) : Bool :=
  (stripLeading? ['/', '/'] (trimStartChars line)).isSome

def lineEnd (line : List Char) : List Char :=
  match line.reverse with
  | '\n' :: '\r' :: _ => ['\r', '\n']
  | '\n' :: _ => ['\n']
  | _ => []

def withoutComment (line : List Char) : List Char :=
  if isComment line then lineEnd line else line

def stripComments (content : String) : String :=
  String.ofList ((lines content.toList).flatMap withoutComment)

end Questionnaire.Definition
