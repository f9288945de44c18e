import Questionnaire.CommandLine.Command
import Questionnaire.CommandLine.Files
import Questionnaire.CommandLine.Interview
import Questionnaire.Report.Structure

/-! What a command prints and how it ends, given the files it finds and the time. -/
namespace Questionnaire

structure CommandResult where
  code : Nat := 0
  output : String := ""
  complaints : List String := []

namespace CommandResult

def print (r : CommandResult) (s : String) : CommandResult := { r with output := r.output ++ s }

def printLine (r : CommandResult) (s : String) : CommandResult := r.print (s ++ "\n")

def complain (r : CommandResult) (s : String) : CommandResult :=
  { r with complaints := r.complaints ++ Text.splitOnChar '\n' s }

def fail (r : CommandResult) (s : String) : CommandResult := { r.complain s with code := 1 }

end CommandResult

inductive Stop where
  | survey (e : SurveyError)
  | other (message : String)

def Stop.report : Stop → String
  | survey e => e.report
  | other message => "Error: " ++ message

namespace Command

def surveyExtension : String := "survey"

def stopOnError {α : Type} : Except SurveyError α → Except Stop α
  | .ok a => .ok a
  | .error e => .error (.survey e)

def readFile (files : Files) (path : String) : Except Stop String :=
  match files.read? path with
  | some content => .ok content
  | none => .error (.other ("Failed to read " ++ path))

/-! Answers on the command line -/

def readAnswer (s : String) : Except Stop (String × AnswerValue) :=
  match Text.cutAt? (· == '=') s with
  | none => .error (.other ("Answer '" ++ s ++ "' should look like TOKEN=value"))
  | some (name, value) =>
    .ok (Text.trim name,
      if value.contains ',' then .many ((Text.splitOnChar ',' value).map Text.trim)
      else .one (Text.trim value))

def readAnswers (answers : List String) : Except Stop (List (String × AnswerValue)) :=
  answers.mapM readAnswer

/-! Definitions -/

/-- The definitions at or below a path. -/
def definitionsAt (files : Files) (path : String) : Except Stop (List String) :=
  let failed (reason : String) : Except Stop (List String) :=
    .error (.other ("IO error for operation on " ++ path ++ ": " ++ reason))
  match files.target path with
  | .file _ => .ok [path]
  | .missing => failed "No such file or directory (os error 2)"
  | .belowFile => failed "Not a directory (os error 20)"
  | .directory names =>
    .ok ((path :: (files.below names).map (Path.join path)).filter fun p =>
      Path.extension? p == some surveyExtension)

def collectDefinitions (files : Files) (paths : List String) : Except Stop (List String) := do
  let found ← paths.mapM (definitionsAt files)
  return found.flatten.mergeSort fun a b => Path.compare a b != .gt

def checkAll (files : Files) (quiet : Bool) (failures : Nat) (r : CommandResult) :
    List String → Except (Stop × CommandResult) (Nat × CommandResult)
  | [] => .ok (failures, r)
  | path :: paths =>
    match readFile files path with
    | .error stop => .error (stop, r)
    | .ok definition =>
      match Survey.compile {} path definition with
      | .ok survey =>
        let r := if quiet then r else r.printLine (Report.surveyText survey)
        checkAll files quiet failures r paths
      | .error e => checkAll files quiet (failures + 1) (r.complain e.report) paths

def executeCheck (files : Files) (paths : List String) (quiet : Bool) : CommandResult :=
  match collectDefinitions files paths with
  | .error stop => CommandResult.fail {} stop.report
  | .ok [] =>
    CommandResult.fail {} (Stop.other ("No ." ++ surveyExtension ++ " files found")).report
  | .ok found =>
    let count := toString found.length
    match checkAll files quiet 0 {} found with
    | .error (stop, r) => r.fail stop.report
    | .ok (0, r) => r.printLine (count ++ " definition(s) OK")
    | .ok (failures, r) =>
      r.fail (Stop.other
        (toString failures ++ " of " ++ count ++ " definition(s) failed to compile")).report

/-- Ends with what was printed, or with a complaint and nothing printed. -/
def finish : Except Stop CommandResult → CommandResult
  | .ok r => r
  | .error stop => CommandResult.fail {} stop.report

def executeRender (files : Files) (now : Option Moment) (file : String)
    (question user : Option String) : Except Stop CommandResult := do
  let survey ← stopOnError (Survey.compile {} file (← readFile files file))
  let context := Session.contextOf { user := user } now
  match question with
  | some id =>
    match survey.get? id with
    | some r => return CommandResult.printLine {} (r.markupText context)
    | none => .error (.other ("Question '" ++ id ++ "' not found"))
  | none =>
    let texts := (survey.records.map (·.markupText context)).filter (!·.isEmpty)
    return texts.foldl CommandResult.printLine {}

def executeEval (expression : String) (answers : List String) : Except Stop CommandResult := do
  let answers := Dict.ofList (← readAnswers answers)
  let source : Source := fun name => (answers.get? name).map AnswerValue.toValue
  let v ← stopOnError (({} : Evaluator).evaluate source expression)
  return CommandResult.printLine {} v.display

/-! Settings -/

def readConfig (files : Files) (path : String) : Except Stop SessionConfig := do
  match (Json.read? (← readFile files path)).bind SessionConfig.ofJson? with
  | some config => return config
  | none => .error (.other ("Invalid session settings in " ++ path))

/-- The settings for a definition. A survey without a name is called after its file. -/
def sessionConfig (files : Files) (file : String) (config : Option String) :
    Except Stop SessionConfig := do
  let config ← match config with
    | some path => readConfig files path
    | none => .ok {}
  if config.surveyName.isEmpty then
    return { config with surveyName := (Path.stem? file).getD "" }
  else return config

/-! Walks -/

/-- The field that an answer is meant for, if the answer is meant for a record at all. An
answer that names no field is for the first one. -/
def scriptedField? (r : Record) (name : String) : Option String :=
  match Text.cutAt? (· == '.') name with
  | some (field, question) => if question == r.id then some field else none
  | none => if name == r.id then r.fields.head?.map AnswerField.key else none

/-- Gives the scripted answers to the question that is shown. -/
def giveAnswers (r : Record) (s : Session) :
    List (String × AnswerValue) → Except SurveyError Session
  | [] => .ok s
  | (name, v) :: answers =>
    match scriptedField? r name with
    | none => giveAnswers r s answers
    | some field =>
      match s.setField field v with
      | (.ok (), s) => giveAnswers r s answers
      | (.error e, _) => .error e

structure ScriptedWalk where
  session : Session
  storage : Storage := .memory {}
  /-- The questions shown, the last one first. -/
  shown : List String

/-- How a walk ends: at an end question, or somewhere before it. -/
inductive WalkEnd where
  | finished (shown : List String)
  | stopped (shown : List String) (last : Option (String × Transition))

def ScriptedWalk.step (answers : List (String × AnswerValue)) (w : ScriptedWalk) :
    Except SurveyError (WalkEnd ⊕ ScriptedWalk) :=
  match w.session.current? with
  | none => .ok (.inl (.stopped w.shown none))
  | some r =>
    if r.isTerminal then .ok (.inl (.finished w.shown))
    else do
      let s ← giveAnswers r w.session answers
      let (t, session, storage) := s.advanceAnyway w.storage
      match ← t with
      | .moved id _ | .terminal id => return .inr ⟨session, storage, id :: w.shown⟩
      | t => return .inl (.stopped w.shown (some (r.id, t)))

/-- Takes steps until the walk ends, `none` if it takes more than a number of them. -/
def ScriptedWalk.run (answers : List (String × AnswerValue)) :
    Nat → ScriptedWalk → Except SurveyError (Option WalkEnd)
  | 0, _ => .ok none
  | fuel + 1, w => do
    match ← w.step answers with
    | .inl walkEnd => return some walkEnd
    | .inr w => ScriptedWalk.run answers fuel w

/-- More steps than a machine can take. -/
def walkFuel : Nat := Text.largestUInt64

def walkResult : Option WalkEnd → CommandResult
  | none => {}
  | some (.finished shown) => CommandResult.print {} (Report.walkText shown.reverse true)
  | some (.stopped shown last) =>
    let r := CommandResult.print {} (Report.walkText shown.reverse false)
    match last with
    | some (id, t) => r.complain ("Stopped at " ++ id ++ ": " ++ Report.transitionText t)
    | none => r

def executeWalk (files : Files) (now : Option Moment) (file : String) (answers : List String)
    (config : Option String) : Except Stop CommandResult := do
  let definition ← readFile files file
  let config ← sessionConfig files file config
  let session ← stopOnError (Session.compile config now file definition)
  let answers ← readAnswers answers
  let (first, session) := session.start
  let first ← stopOnError first
  let walkEnd ← stopOnError
    (ScriptedWalk.run answers walkFuel { session := session, shown := [first] })
  return walkResult walkEnd

/-! Interviews -/

/-- Shows the question that a session continues with. There is nobody to answer it. -/
def interview (s : Session) (storage : Storage) (r : CommandResult) : CommandResult :=
  match s.resume storage with
  | (.error e, _) => r.fail e.report
  | (.ok _, s) =>
    match s.current? with
    | none => r.fail (Stop.other "The survey has not started").report
    | some record =>
      (r.print ("\n[" ++ record.id ++ "] " ++ Report.sessionPrompt s record ++ "\n")).fail
        (Stop.other (Ask.first s record).failure).report

/-- Where answers are kept: beside the definition, unless another file is named. -/
def statePath (file : String) (state : Option String) : String :=
  state.getD (Path.withExtension file "answers.json")

def executeRun (files : Files) (now : Option Moment) (file : String)
    (state config user : Option String) : Except Stop CommandResult := do
  let definition ← readFile files file
  let config ← sessionConfig files file config
  let config := { config with user := user.or config.user }
  let path := statePath file state
  let r := CommandResult.printLine {} ("Saving answers to " ++ path)
  match Session.compile config now file definition with
  | .error e => return r.fail e.report
  | .ok session => return interview session (.file ⟨path, files.storedContent path⟩) r

def paths : Command → List String
  | check paths _ => paths
  | render file _ _ => [file]
  | eval _ _ => []
  | walk file _ config => file :: config.toList
  | run file state config _ => [file, statePath file state] ++ config.toList

/-- The code of a command line that is no command. -/
def usageCode : Nat := 2

def execute (files : Files) (now : Option Moment) : Command → CommandResult
  | check paths quiet => executeCheck files paths quiet
  | render file question user => finish (executeRender files now file question user)
  | eval expression answers => finish (executeEval expression answers)
  | walk file answers config => finish (executeWalk files now file answers config)
  | run file state config user => finish (executeRun files now file state config user)

def executeLine (files : Files) (now : Option Moment) (args : List String) : CommandResult :=
  match read? args with
  | some command => command.execute files now
  | none => { code := usageCode, complaints := ["Usage: check | render | eval | walk | run"] }

end Command

end Questionnaire
