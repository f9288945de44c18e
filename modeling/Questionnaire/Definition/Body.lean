import Questionnaire.Definition.Question

/-! Question bodies: lines of text and response options, with fields to fill in,
computed values and context variables among the text. -/
namespace Questionnaire

inductive FieldKind where
  | text
  | textArea
  | number
  | date
  | month
  | other
deriving DecidableEq

namespace FieldKind

def keyword : FieldKind → String
  | text => "text"
  | textArea => "textarea"
  | number => "number"
  | date => "date"
  | month => "month"
  | other => "other"

def all : List FieldKind := [text, textArea, number, date, month, other]

def ofKeyword? (s : String) : Option FieldKind := all.find? (·.keyword == s)

end FieldKind

/-- A field with the key that its answer is stored under. -/
structure Field where
  kind : FieldKind
  key : String
  minimum : Option String := none
  maximum : Option String := none
  displayIf : Option String := none
  disabled : Bool := false
  /-- Of the fields of one group at most one has an answer. -/
  exclusiveGroup : Option String := none
deriving DecidableEq

inductive Inline where
  | text (s : String)
  | computed (expression : String)
  | context (name : String)
  | field (f : Field)
deriving DecidableEq

inductive ChoiceKind where
  /-- One option of the group. -/
  | exclusive
  /-- Any number of options. -/
  | inclusive
  /-- An option that excludes the others of its group. -/
  | sole
deriving DecidableEq

structure Choice where
  kind : ChoiceKind
  value : String
  label : List Inline
  skips : List SkipDirective
deriving DecidableEq

inductive BodyLine where
  | text (inlines : List Inline)
  | choice (c : Choice)
deriving DecidableEq

def BodyLine.inlines : BodyLine → List Inline
  | text inlines => inlines
  | choice c => c.label

end Questionnaire
