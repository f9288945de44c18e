import Questionnaire.Answer.ChangeSet
import Questionnaire.Error
import Questionnaire.Json.Reader
import Questionnaire.Json.Writer

/-! Where committed answers are kept. Storing answers with a code, of which only one
means success, or fails outright; neither leaves anything behind. -/
namespace Questionnaire

def successCode : Nat := 200

/-- Storage in memory, which can be told to misbehave. -/
structure MemoryStorage where
  saved : Dict Json := ∅
  code : Nat := successCode
  failure : Option String := none
  calls : Nat := 0

namespace MemoryStorage

def respondWith (m : MemoryStorage) (code : Nat) : MemoryStorage := { m with code := code }

def failWith (m : MemoryStorage) (message : String) : MemoryStorage :=
  { m with failure := some message }

def recover (m : MemoryStorage) : MemoryStorage := { m with code := successCode, failure := none }

def seed (m : MemoryStorage) (name : String) (value : Json) : MemoryStorage :=
  { m with saved := m.saved.insert name value }

def store (m : MemoryStorage) (changes : ChangeSet) : Except SurveyError Nat × MemoryStorage :=
  let m := { m with calls := m.calls + 1 }
  match m.failure with
  | some message => (.error (.storage message), m)
  | none =>
    if m.code != successCode then (.ok m.code, m)
    else (.ok successCode, { m with saved := changes.applyTo m.saved })

def retrieve (m : MemoryStorage) : Option Json :=
  if m.saved.isEmpty then none else some (.ofDict m.saved)

end MemoryStorage

inductive FileContent where
  | missing
  | text (s : String)
  | unreadable (reason : String)

/-- A file that holds one object. -/
structure FileStorage where
  name : String
  content : FileContent

namespace FileStorage

def read (f : FileStorage) : Except SurveyError (Dict Json) :=
  match f.content with
  | .missing => .ok ∅
  | .unreadable reason => .error (.storage (f.name ++ ": " ++ reason))
  | .text s =>
    match Json.read? s with
    | none => .error (.state .unreadableJson)
    | some (.object fields) => .ok (.ofList fields)
    | some _ => .error (.state (.notAnObject f.name))

def store (f : FileStorage) (changes : ChangeSet) : Except SurveyError Nat × FileStorage :=
  match f.read with
  | .error e => (.error e, f)
  | .ok saved =>
    (.ok successCode, { f with content := .text (Json.ofDict (changes.applyTo saved)).render })

def retrieve (f : FileStorage) : Except SurveyError (Option Json) := do
  let saved ← f.read
  return if saved.isEmpty then none else some (.ofDict saved)

end FileStorage

inductive Storage where
  | memory (m : MemoryStorage)
  | file (f : FileStorage)
  /-- A host that answers every request with one code and keeps nothing. -/
  | host (code : Nat)

namespace Storage

def store (s : Storage) (changes : ChangeSet) : Except SurveyError Nat × Storage :=
  match s with
  | memory m => (m.store changes).map id memory
  | file f => (f.store changes).map id file
  | host code => (.ok code, host code)

def retrieve : Storage → Except SurveyError (Option Json)
  | memory m => .ok m.retrieve
  | file f => f.retrieve
  | host _ => .ok none

end Storage

end Questionnaire
