import Questionnaire.Answer.Store
import Questionnaire.Evaluator
import Questionnaire.Limits
import Questionnaire.Navigation.History
import Questionnaire.Survey.Basic

/-! Navigation through a survey. A move looks at one candidate after the other until it
finds a question to show: a loop entry it is forced to, the first question of the
queue, or else the record behind the one looked at last. A move that does not arrive
anywhere changes nothing. -/
namespace Questionnaire

inductive NavigationState where
  | idle
  | active (id : String)
  /-- An end question is shown. -/
  | terminal (id : String)
deriving DecidableEq

def NavigationState.id? : NavigationState → Option String
  | idle => none
  | active id | terminal id => some id

/-- What a move looks at besides the navigator. -/
structure Surroundings where
  survey : Survey
  evaluator : Evaluator
  source : Source

namespace Surroundings

def holds (env : Surroundings) (condition : String) : Bool :=
  env.evaluator.condition env.source condition

/-- Whether a condition holds, if there is one. -/
def permits (env : Surroundings) (condition : Option String) : Bool := condition.all env.holds

/-- The values selected among the options of a question. -/
def selected (env : Surroundings) (question : String) : List String :=
  [radioKey, checkboxKey].flatMap fun key =>
    match env.source (compoundName key question) with
    | none => []
    | some (.list items) => items.map Value.display
    | some v => [v.display]

/-- The targets of the selected options whose guards hold, as they are declared. -/
def skipTargets (env : Surroundings) (r : Record) : List String :=
  if r.directives.skipTargets.isEmpty then []
  else
    let selected := env.selected r.id
    (r.directives.skipTargets.filter fun t =>
      selected.contains t.optionValue && env.permits t.directive.guard).map (·.directive.target)

end Surroundings

structure Navigator where
  history : History := {}
  state : NavigationState := .idle
  loops : List Loop := []
  /-- Candidates that one move may look at. -/
  maxSteps : Nat

namespace Navigator

def ofSurvey (survey : Survey) (limits : Limits) : Navigator :=
  { loops := survey.loops, maxSteps := limits.maxNavigationSteps }

def current? (n : Navigator) : Option String := n.state.id?

def loop? (n : Navigator) (index : Nat) : Option Loop := n.loops.find? (·.index == index)

/-- Keeps a bound for the first loop with an index. -/
def setBound (index bound : Nat) : List Loop → List Loop
  | [] => []
  | loop :: loops =>
    if loop.index == index then { loop with bound := some bound } :: loops
    else loop :: setBound index bound loops

def readBound (n : Navigator) (source : Source) (index : Nat) :
    Except SurveyError (Loop × Nat × Navigator) :=
  match n.loop? index with
  | none => .error (.navigation (.noDescriptor index))
  | some loop => do
    let bound ← loop.readBound source
    return (loop, bound, { n with loops := setBound index bound n.loops })

def endMarker? (n : Navigator) (survey : Survey) (index : Nat) : Option String :=
  ((n.loop? index).bind fun loop => survey.at? loop.endPosition).map Record.id

structure Walk where
  navigator : Navigator
  /-- The record behind which to go on. -/
  cursor : Option String
  /-- The candidate that comes before all others. -/
  forced : Option String

inductive Walk.Outcome where
  /-- A question is shown. -/
  | arrived (id : String) (n : Navigator)
  | onward (w : Walk)
  | stuck

/-- The next candidate, and the walk without it. -/
def Walk.candidate? (w : Walk) (survey : Survey) : Option (String × Walk) :=
  match w.forced with
  | some id => some (id, { w with forced := none })
  | none =>
    match w.navigator.history.pop? with
    | some (id, history) => some (id, { w with navigator := { w.navigator with history } })
    | none => (w.cursor.bind survey.successor?).map fun r => (r.id, w)

/-- The iteration behind another one. Iterations are counted in a word of thirty-two
bits. -/
def nextIteration (iteration : Nat) : Nat := (iteration + 1) % (Text.largestUInt32 + 1)

/-- Passes a continuation marker: on to the next iteration, or out of the loop. -/
def Walk.passContinuation (env : Surroundings) (w : Walk) (marker : String)
    (index iteration : Nat) : Except SurveyError Walk := do
  let n := { w.navigator with history := w.navigator.history.visit marker }
  let (loop, bound, n) ← n.readBound env.source index
  let next := nextIteration iteration
  if loop.admits next bound then return ⟨n, some marker, some (loop.iterationEntry next)⟩
  else return ⟨n, n.endMarker? env.survey index, w.forced⟩

def arrive (n : Navigator) (r : Record) : Navigator :=
  { n with
    history := n.history.visit r.id
    state := if r.isTerminal then .terminal r.id else .active r.id }

/-- Shows a question whose iteration runs, unless its condition hides it. -/
def Walk.offer (env : Surroundings) (w : Walk) (r : Record) : Outcome :=
  if env.permits r.directives.displayIf then .arrived r.id (w.navigator.arrive r)
  else .onward { w with cursor := some r.id }

def Walk.visitQuestion (env : Surroundings) (w : Walk) (r : Record) :
    Except SurveyError Outcome :=
  match r.directives.loopEntry with
  | none => .ok (w.offer env r)
  | some entry => do
    let (loop, bound, n) ← w.navigator.readBound env.source entry.loopIndex
    let w := { w with navigator := n }
    if loop.admits entry.iteration bound then return w.offer env r
    else return .onward { w with cursor := n.endMarker? env.survey entry.loopIndex }

/-- Looks at one candidate. An unknown one is passed over. -/
def Walk.step (env : Surroundings) (w : Walk) : Except SurveyError Outcome :=
  match w.candidate? env.survey with
  | none => .ok .stuck
  | some (id, w) =>
    match env.survey.record? id with
    | none => .ok (.onward w)
    | some r =>
      match r.marker? with
      | some (.continuation index iteration) =>
        (w.passContinuation env id index iteration).map .onward
      | some (.endOfLoop _) => .ok (.onward { w with cursor := some id })
      | none => w.visitQuestion env r

/-- Looks at candidates until a question is shown. -/
def Walk.run (env : Surroundings) (bound : Nat) (w : Walk) :
    Nat → Except SurveyError (Option (String × Navigator))
  | 0 => .error (.limit (.navigationSteps bound))
  | steps + 1 => do
    match ← w.step env with
    | .arrived id n => return some (id, n)
    | .onward w => w.run env bound steps
    | .stuck => return none

def walk (n : Navigator) (env : Surroundings) (cursor forced : Option String) :
    Except SurveyError (Option (String × Navigator)) :=
  Walk.run env n.maxSteps ⟨n, cursor, forced⟩ n.maxSteps

/-- Begins at the first question that is visible. -/
def start (n : Navigator) (env : Surroundings) : Except SurveyError String × Navigator :=
  match env.survey.records.head? with
  | none => (.error (.emptySurvey env.survey.name), n)
  | some first =>
    match { n with history := {}, state := .idle }.walk env none (some first.id) with
    | .ok (some (id, moved)) => (.ok id, moved)
    | .ok none => (.error (.navigation .nothingVisible), n)
    | .error e => (.error e, n)

def resume (n : Navigator) (history : History) (survey : Survey) :
    Except SurveyError String × Navigator :=
  match history.current? with
  | none => (.error (.state .emptyHistory), n)
  | some id =>
    match survey.get? id with
    | none => (.error (.state (.unknownLast id)), n)
    | some r =>
      (.ok id, { n with
        state := if r.isTerminal then .terminal id else .active id
        history })

/-- Moves on from the active question. There may be nowhere to go. -/
def next (n : Navigator) (env : Surroundings) : Except SurveyError (Option String) × Navigator :=
  match n.state with
  | .idle | .terminal _ => (.ok none, n)
  | .active id =>
    match env.survey.get? id with
    | none => (.error (.navigation (.unknownActive id)), n)
    | some r =>
      match { n with history := n.history.enqueue (env.skipTargets r) }.walk env (some id) none with
      | .ok (some (id, moved)) => (.ok (some id), moved)
      | .ok none => (.ok none, n)
      | .error e => (.error e, n)

def back (n : Navigator) : Option String × Navigator :=
  match n.state with
  | .idle => (none, n)
  | .active _ | .terminal _ =>
    match n.history.back? with
    | some (id, history) => (some id, { n with history, state := .active id })
    | none => (none, n)

/-- The loop with its bound read anew, or as it was if the answer is no bound. -/
def refreshLoop (source : Source) (loop : Loop) : Loop :=
  match loop.readBound source with
  | .ok bound => { loop with bound := some bound }
  | .error _ => loop

/-- Reads the bounds that depend on a question anew. -/
def refreshBounds (n : Navigator) (question : String) (source : Source) : Navigator :=
  { n with loops := n.loops.map fun loop =>
      if loop.boundSource == question then refreshLoop source loop else loop }

end Navigator

end Questionnaire
