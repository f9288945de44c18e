import Questionnaire.Answer.Storage
import Questionnaire.Navigation.Gate
import Questionnaire.Navigation.Navigator
import Questionnaire.Session.Config
import Questionnaire.Survey.Compile
import Questionnaire.Survey.Rendering

/-! The session of one respondent: a compiled survey, the answers so far and the place
in the survey. Edits go to the question that is shown; what a session can be asked
does not change it. -/
namespace Questionnaire

structure Session where
  config : SessionConfig
  /-- What the names of stored values begin with. -/
  surveyName : String
  context : Context
  survey : Survey
  evaluator : Evaluator
  store : Store
  navigator : Navigator

/-- A computed span with its value; there is none if the expression fails. -/
structure ComputedValue where
  elementId : String
  expression : String
  value : Option Value

/-- The least and the greatest number that a field admits. -/
structure NumericBounds where
  least : Option Decimal := none
  greatest : Option Decimal := none

namespace Session

/-- The variables of texts; those of the settings come last. -/
def contextOf (config : SessionConfig) (now : Option Moment) : Context :=
  let captured := match now with
    | some now => Context.ofMoment now config.user
    | none => Context.ofUser config.user
  captured.addAll config.context.entries

def ofSurvey (survey : Survey) (config : SessionConfig) (now : Option Moment) : Session where
  config := config
  surveyName := if config.surveyName.isEmpty then survey.name else config.surveyName
  context := contextOf config now
  survey := survey
  evaluator := Evaluator.ofMaxDepth config.limits.maxExpressionDepth
  store := { rowOwners := survey.rowOwners }
  navigator := Navigator.ofSurvey survey config.limits

def compile (config : SessionConfig) (now : Option Moment) (sourceId definition : String) :
    Except SurveyError Session := do
  return ofSurvey (← Survey.compile config.limits sourceId definition) config now

def withContext (s : Session) (context : Context) : Session := { s with context := context }

def withPrior (s : Session) (prior : Dict AnswerValue) : Session :=
  { s with store := s.store.setPrior prior }

def state (s : Session) : NavigationState := s.navigator.state

def current? (s : Session) : Option Record := s.navigator.current?.bind s.survey.get?

def surroundings (s : Session) : Surroundings := ⟨s.survey, s.evaluator, s.store.source⟩

/-! Questions about the session -/

def evaluate (s : Session) (expression : String) : Except SurveyError Value :=
  s.evaluator.evaluate s.store.source expression

def holds (s : Session) (condition : String) : Bool :=
  s.evaluator.condition s.store.source condition

def markup? (s : Session) (question : String) : Option String :=
  (s.survey.get? question).map (·.markupText s.context)

def gate (s : Session) : GateOutcome :=
  match s.navigator.state with
  | .active id =>
    match s.survey.get? id with
    | some r => .ofRecord s.evaluator s.store r
    | none => .passed
  | _ => .passed

/-- The values of computed spans, in the order of the text. -/
def computedValues (s : Session) (question : String) : List ComputedValue :=
  match s.survey.get? question with
  | none => []
  | some r =>
    r.computedExpressions.mapIdx fun i expression =>
      ⟨computedId question (i + 1), expression, (s.evaluate expression).toOption⟩

def field? (s : Session) (question key : String) : Option AnswerField :=
  (s.survey.get? question).bind (·.field? key)

def boundValue? (s : Session) (expression : Option String) : Option Decimal :=
  expression.bind fun e => (s.evaluate e).toOption.bind Value.asNumber?

def numericBounds (s : Session) (question key : String) : NumericBounds :=
  match s.field? question key with
  | none => {}
  | some f => ⟨s.boundValue? f.minimum, s.boundValue? f.maximum⟩

def isVisible (s : Session) (question : String) : Bool :=
  ((s.survey.get? question).bind (·.directives.displayIf)).all s.holds

def isFieldVisible (s : Session) (question key : String) : Bool :=
  (s.field? question key).all fun f => !f.disabled && f.displayIf.all s.holds

/-! Edits -/

/-- A selection in which options that exclude the others are kept apart from them: a
newly selected one stands alone, else such options give way. -/
def keepExclusive (s : Session) (r : Record) (v : AnswerValue) : AnswerValue :=
  match v with
  | .one _ => v
  | .many selected =>
    let sole := r.soleValues
    if sole.isEmpty || selected.length < 2 then v
    else
      let previous := (((s.store.entry? r.id).bind (·.field? checkboxKey)).map
        AnswerValue.values).getD []
      match selected.find? fun x => sole.contains x && !previous.contains x with
      | some choice => .many [choice]
      | none => .many (selected.filter fun x => !sole.contains x)

/-- The other fields of the exclusive group of a field. -/
def rivals (fields : List AnswerField) (f : AnswerField) : List AnswerField :=
  match f.exclusiveGroup with
  | none => []
  | some group => fields.filter fun other =>
    other.key != f.key && other.exclusiveGroup == some group

def put (s : Session) (r : Record) (f : AnswerField) (v : AnswerValue) : Store :=
  let (count, store) := s.store.fieldCount r.id (r.markupText s.context)
  let v := if f.key == checkboxKey then s.keepExclusive r v else v
  let cleared := if v.isEmpty then [] else rivals r.fields f
  (cleared.foldl (fun store other => store.clear r.id other.key) store).set r.id f.key count v

/-- The session with other answers to a question. -/
def withAnswers (s : Session) (question : String) (store : Store) : Session :=
  { s with store, navigator := s.navigator.refreshBounds question store.source }

def setField (s : Session) (key : String) (v : AnswerValue) : Except SurveyError Unit × Session :=
  match s.navigator.current? with
  | none => (.error (.navigation .notStarted), s)
  | some question =>
    match s.survey.get? question with
    | none => (.error (.navigation (.unknownQuestion question)), s)
    | some r =>
      match r.field? key with
      | none => (.error (.state (.noField question key)), s)
      | some f => (.ok (), s.withAnswers question (s.put r f v))

def clearField (s : Session) (key : String) : Except SurveyError Unit × Session :=
  match s.navigator.current? with
  | none => (.error (.navigation .notStarted), s)
  | some question => (.ok (), s.withAnswers question (s.store.clear question key))

end Session

end Questionnaire
