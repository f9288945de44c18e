/-! What can be wrong with the text of a definition. -/
namespace Questionnaire

inductive DefinitionFault where
  | nestedLoop
  | loopWithoutBound
  | loopWithoutMaximum
  | loopWithoutEntry
  | gridRowWithoutPrompt (row : String)
  | gridRowId (id : String)
  | gridColumnWithoutLabel (column : String)
  | emptyGrid (id : String)
deriving DecidableEq

namespace DefinitionFault

def message : DefinitionFault → String
  | nestedLoop => "Loop blocks cannot be nested"
  | loopWithoutBound => "Loop block is missing its bound=ID attribute"
  | loopWithoutMaximum => "Loop block needs a numeric max=N attribute"
  | loopWithoutEntry => "Loop body must begin with a question boundary or a grid"
  | gridRowWithoutPrompt row => "Grid row '" ++ row ++ "' must look like ROWID=prompt"
  | gridRowId id => "Grid row id '" ++ id ++ "' is not a valid identifier"
  | gridColumnWithoutLabel column =>
    "Grid response '" ++ column ++ "' must look like value=label"
  | emptyGrid id => "Grid " ++ id ++ " needs at least one row and one response column"

def gridForm : String :=
  "Grid blocks look like |grid ID|args|shared text|ROW=prompt;...|value=label;...|"

def suggestion? : DefinitionFault → Option String
  | nestedLoop | loopWithoutBound | loopWithoutMaximum | loopWithoutEntry => none
  | gridRowWithoutPrompt _ | gridRowId _ | gridColumnWithoutLabel _ | emptyGrid _ => some gridForm

end DefinitionFault

end Questionnaire
