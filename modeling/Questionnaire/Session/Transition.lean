import Questionnaire.Session.Basic

/-! Transitions of a session. A transition takes effect at once: edits are merged and the
navigator moves, and what changed is then stored. If storing fails, answers and
navigator go back to what they were when the transition began. -/
namespace Questionnaire

structure Notice where
  message : String
  /-- How long the notice stays, in milliseconds. -/
  dismissAfterMs : Nat

inductive Transition where
  /-- After a step back with the entry to show again. -/
  | moved (question : String) (restored : Option Entry)
  /-- An end question is shown, which can be submitted. -/
  | terminal (question : String)
  | submitted (question : String) (completedAt : String)
  | blocked (unanswered : Nat) (overridable : Bool)
  | unchanged
  /-- Storing failed and the question shown before is shown again. -/
  | rolledBack (active : String) (restored : Option Entry) (notice : Notice)

inductive Direction where
  | forward
  | back
deriving DecidableEq

namespace Session

structure Snapshot where
  store : Store.Snapshot
  navigator : Navigator

/-- A transition that has taken effect and is not stored yet. -/
structure PendingCommit where
  changes : ChangeSet
  transition : Transition
  saved : Snapshot

inductive Deferred where
  | ready (commit : PendingCommit)
  | settled (t : Transition)

def historyName : String := "__history"
def framesName : String := "__history_frames"
def completedName : String := "__completed"
def completedAtName : String := "__completed_at"

def snapshot (s : Session) : Snapshot := ⟨s.store.snapshot, s.navigator⟩

def start (s : Session) : Except SurveyError String × Session :=
  let (result, navigator) := s.navigator.start s.surroundings
  (result, { s with navigator })

/-! Resuming -/

structure StoredState where
  committed : Dict Entry := ∅
  history : Option Json := none
  frames : Option Json := none

/-- Takes in a value by its name within the survey. What is no entry is passed over. -/
def StoredState.take (stored : StoredState) (name : String) (value : Json) : StoredState :=
  if name == historyName then { stored with history := some value }
  else if name == framesName then { stored with frames := some value }
  else if name == completedName || name == completedAtName then stored
  else
    match Entry.ofJson? value with
    | some e => { stored with committed := stored.committed.insert name e }
    | none => stored

def ownName? (survey qualified : String) : Option String :=
  (Text.stripLeading? (qualifiedName survey "").toList qualified.toList).map String.ofList

/-- The values whose names belong to a survey. -/
def StoredState.ofJson (survey : String) (state : Json) : StoredState :=
  (state.object?.getD []).foldl
    (fun stored (qualified, value) =>
      match ownName? survey qualified with
      | some name => stored.take name value
      | none => stored)
    {}

def resumeFrom (s : Session) (state : Json) : Except SurveyError String × Session :=
  let stored := StoredState.ofJson s.surveyName state
  match stored.history.mapM (History.restore · stored.frames) with
  | .error e => (.error e, s)
  | .ok history =>
    let store := (s.store.load stored.committed).setLegacy (.ofJson state)
    let s := { s with store }
    match history with
    | none => s.start
    | some history =>
      if history.isEmpty then s.start
      else
        let (result, navigator) := s.navigator.resume history s.survey
        (result, { s with navigator })

/-- Continues where storage has left off, or starts if nothing is stored. -/
def resume (s : Session) (storage : Storage) : Except SurveyError String × Session :=
  match storage.retrieve with
  | .error e => (.error e, s)
  | .ok none => s.start
  | .ok (some state) => s.resumeFrom state

/-! Moving -/

/-- What is to be stored: pending edits and the history. -/
def changes (s : Session) : ChangeSet :=
  let edits : ChangeSet := s.store.pending.entries.foldl
    (fun changes (question, e) =>
      changes.insert s.surveyName question (.ofOption Entry.toJson e)) {}
  (edits.insert s.surveyName historyName s.navigator.history.idsJson).insert
    s.surveyName framesName s.navigator.history.toJson

def move (s : Session) : Direction → Except SurveyError (Option String) × Navigator
  | .forward => s.navigator.next s.surroundings
  | .back => let (id, navigator) := s.navigator.back; (.ok id, navigator)

/-- What a move that has arrived at a question amounts to. -/
def arrival (s : Session) (direction : Direction) (id : String) : Transition :=
  match s.navigator.state with
  | .terminal _ => .terminal id
  | _ => .moved id (if direction = .back then s.store.entry? id else none)

/-- Moves, without storing what changed. -/
def depart (s : Session) (direction : Direction) : Except SurveyError Deferred × Session :=
  match s.move direction with
  | (.error e, _) => (.error e, s)
  | (.ok none, _) => (.ok (.settled .unchanged), s)
  | (.ok (some id), navigator) =>
    let saved := s.snapshot
    let s := { s with navigator }
    let changes := s.changes
    let s := { s with store := s.store.merge }
    (.ok (.ready ⟨changes, s.arrival direction id, saved⟩), s)

def saveFailedMessage : String := "Your answers could not be saved. Please try again."

def rollback (s : Session) (saved : Snapshot) : Transition × Session :=
  let s := { s with store := s.store.restore saved.store, navigator := saved.navigator }
  let active := s.navigator.current?.getD ""
  (.rolledBack active (s.store.entry? active) ⟨saveFailedMessage, s.config.noticeMs⟩, s)

/-- Ends a transition, given what storage has answered. -/
def settle (s : Session) (commit : PendingCommit) (answer : Except SurveyError Nat) :
    Transition × Session :=
  match answer with
  | .ok code => if code = successCode then (commit.transition, s) else s.rollback commit.saved
  | .error _ => s.rollback commit.saved

def conclude (s : Session) (commit : PendingCommit) (storage : Storage) :
    Transition × Session × Storage :=
  let (answer, storage) := storage.store commit.changes
  let (t, s) := s.settle commit answer
  (t, s, storage)

/-- The outcome of a transition, the session and the storage after it. -/
abbrev Result := Except SurveyError Transition × Session × Storage

def commit (s : Session) (direction : Direction) (storage : Storage) : Result :=
  match s.depart direction with
  | (.error e, s) => (.error e, s, storage)
  | (.ok (.settled t), s) => (.ok t, s, storage)
  | (.ok (.ready c), s) =>
    let (t, s, storage) := s.conclude c storage
    (.ok t, s, storage)

/-- Moves on, unless the gate is closed. -/
def advance (s : Session) (storage : Storage) : Result :=
  match s.gate with
  | .blocked unanswered overridable => (.ok (.blocked unanswered overridable), s, storage)
  | .passed => s.commit .forward storage

/-- Moves on, unless the gate is closed and cannot be overridden. -/
def advanceAnyway (s : Session) (storage : Storage) : Result :=
  match s.gate with
  | .blocked unanswered false => (.ok (.blocked unanswered false), s, storage)
  | _ => s.commit .forward storage

def retreat (s : Session) (storage : Storage) : Result := s.commit .back storage

/-- Moves on like `advance`, and leaves storing to the caller. -/
def advanceDeferred (s : Session) : Except SurveyError Deferred × Session :=
  match s.gate with
  | .blocked unanswered overridable => (.ok (.settled (.blocked unanswered overridable)), s)
  | .passed => s.depart .forward

/-- Moves back, and leaves storing to the caller. -/
def retreatDeferred (s : Session) : Except SurveyError Deferred × Session := s.depart .back

/-- Stores everything with a mark of completion. Only an end question can be submitted. -/
def submit (s : Session) (completedAt : String) (storage : Storage) : Result :=
  match s.navigator.state with
  | .terminal id =>
    let changes := (s.changes.insert s.surveyName completedName (.bool true)).insert
      s.surveyName completedAtName (.text completedAt)
    let commit : PendingCommit := ⟨changes, .submitted id completedAt, s.snapshot⟩
    let (t, s, storage) := { s with store := s.store.merge }.conclude commit storage
    (.ok t, s, storage)
  | _ => (.error (.navigation .notAtEnd), s, storage)

end Session

end Questionnaire
