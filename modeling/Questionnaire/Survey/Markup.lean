import Questionnaire.Text.Cut

/-! Trees of markup and their text. Attribute values and texts are kept as they are;
writing replaces the five characters that have a meaning of their own. -/
namespace Questionnaire

structure Attribute where
  name : String
  /-- Nothing for an attribute that stands alone. -/
  value : Option String

inductive Markup where
  | text (s : String)
  /-- An element that has no content and no end tag. -/
  | void (tag : String) (attributes : List Attribute)
  | element (tag : String) (attributes : List Attribute) (children : List Markup)

def Attribute.of (name value : String) : Attribute := ⟨name, some value⟩

/-- The attribute, if there is a value for it. -/
def Attribute.ofOption (name : String) (value : Option String) : List Attribute :=
  value.toList.map (of name)

namespace Markup

def escapeChar : Char → List Char
  | '&' => ['&', 'a', 'm', 'p', ';']
  | '<' => ['&', 'l', 't', ';']
  | '>' => ['&', 'g', 't', ';']
  | '"' => ['&', 'q', 'u', 'o', 't', ';']
  | '\'' => ['&', '#', '3', '9', ';']
  | c => [c]

def escape (s : String) : String := String.ofList (s.toList.flatMap escapeChar)

def writeAttribute (out : String) (a : Attribute) : String :=
  match a.value with
  | some value => out ++ " " ++ a.name ++ "=\"" ++ escape value ++ "\""
  | none => out ++ " " ++ a.name

def writeStart (out tag : String) (attributes : List Attribute) : String :=
  (attributes.foldl writeAttribute (out ++ "<" ++ tag)).push '>'

mutual

/-- The text so far followed by a tree. -/
def write (out : String) : Markup → String
  | text s => out ++ escape s
  | void tag attributes => writeStart out tag attributes
  | element tag attributes children =>
    writeAll (writeStart out tag attributes) children ++ "</" ++ tag ++ ">"

def writeAll (out : String) : List Markup → String
  | [] => out
  | node :: nodes => writeAll (write out node) nodes

end

def render (nodes : List Markup) : String := writeAll "" nodes

end Markup

end Questionnaire
