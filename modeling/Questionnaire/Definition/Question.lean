import Questionnaire.Definition.Span

/-! Questions as a definition text declares them: an identifier, directives and a body
that is still text. -/
namespace Questionnaire

/-- Whether a question may be left without an answer. -/
inductive Mandate where
  | optional
  /-- Leaving is refused at first, but the respondent may insist. -/
  | soft
  | hard
deriving DecidableEq

/-- The annotation of the first question of an iteration. -/
structure LoopEntry where
  loopIndex : Nat
  bound : String
  maximum : Nat
  iteration : Nat
  stem : String
deriving DecidableEq

/-- A jump to another question, taken if there is no guard or the guard holds. -/
structure SkipDirective where
  target : String
  guard : Option String
deriving DecidableEq

structure SkipTarget where
  optionValue : String
  directive : SkipDirective
deriving DecidableEq

/-- What a header says about its question. Conditions are kept as text. -/
structure Directives where
  displayIf : Option String := none
  isEnd : Bool := false
  mandate : Mandate := .optional
  loopEntry : Option LoopEntry := none
  grid : Bool := false
  skipTargets : List SkipTarget := []
  /-- Options without a meaning of their own. -/
  extra : List (String × Option String) := []
deriving DecidableEq

structure QuestionText where
  id : String
  directives : Directives
  body : String
  span : Span
deriving DecidableEq

end Questionnaire
