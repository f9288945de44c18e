import Questionnaire.Answer.Entry
import Questionnaire.Answer.LegacyIndex
import Questionnaire.Expr.Evaluation
import Questionnaire.Survey.FieldCount

/-! The answers of a session. Committed entries are what storage holds; pending edits
lie over them until they are merged or discarded. A lookup asks for live answers
first, then for results of an earlier survey, then for what an index of stored data
knows. What a lookup has found is remembered until an answer changes. -/
namespace Questionnaire

/-- The name that answers to a field are looked up by. -/
def compoundName (field question : String) : String :=
  if field.isEmpty || field == question then question else field ++ "." ++ question

structure Store where
  committed : Dict Entry := ∅
  /-- Edits by question; nothing stands for an answer that was removed. -/
  pending : Dict (Option Entry) := ∅
  fieldCounts : Dict Nat := ∅
  resolved : Dict AnswerValue := ∅
  prior : Dict AnswerValue := ∅
  legacy : LegacyIndex := {}
  /-- Grids by the rows they own. -/
  rowOwners : Dict String := ∅

/-- What a transition may change. -/
structure Store.Snapshot where
  committed : Dict Entry := ∅
  pending : Dict (Option Entry) := ∅

namespace Store

def entry? (s : Store) (question : String) : Option Entry :=
  match s.pending.get? question with
  | some edit => edit
  | none => s.committed.get? question

/-! Lookup -/

def ownerEntry? (s : Store) (row : String) : Option Entry :=
  (s.rowOwners.get? row).bind s.entry?

/-- The answer to a field of a question, or to a text column of a row. -/
def liveField? (s : Store) (field question : String) : Option AnswerValue :=
  match s.entry? question with
  | some e => e.field? field
  | none => (s.ownerEntry? question).bind (·.field? (cellKey question field))

/-- The answer that stands for a question, or the answer to a row of a grid. -/
def livePrimary? (s : Store) (question : String) : Option AnswerValue :=
  match s.entry? question with
  | some e => e.primary?
  | none => (s.ownerEntry? question).bind (·.field? question)

/-- The live answer to a name, which is cut at its first point. -/
def live? (s : Store) (name : String) : Option AnswerValue :=
  match Text.cutAt? (· == '.') name with
  | some (field, question) => s.liveField? field question
  | none => s.livePrimary? name

def liveValue? (s : Store) (field question : String) : Option AnswerValue :=
  s.live? (compoundName field question)

/-- A name that is a number stands for itself. -/
def numeral? (name : String) : Option AnswerValue :=
  let trimmed := Text.trim name
  if !isIdentifier name && (Decimal.read? trimmed).isSome then some (.one trimmed) else none

/-- What a name stands for, whatever earlier lookups have found. -/
def find? (s : Store) (name : String) : Option AnswerValue :=
  ((s.live? name).or (s.prior.get? name)).or (s.legacy.find? name)

def lookup (s : Store) (name : String) : Option AnswerValue × Store :=
  match numeral? name with
  | some v => (some v, s)
  | none =>
    match s.resolved.get? name with
    | some v => (some v, s)
    | none =>
      match s.find? name with
      | some v => (some v, { s with resolved := s.resolved.insert name v })
      | none => (none, s)

def lookupField (s : Store) (field question : String) : Option AnswerValue × Store :=
  s.lookup (compoundName field question)

def source (s : Store) : Source := fun name => (s.lookup name).1.map AnswerValue.toValue

/-! Changes -/

def forget (s : Store) : Store := { s with resolved := ∅ }

def edit (s : Store) (question : String) (e : Option Entry) : Store :=
  { s with pending := s.pending.insert question e }.forget

/-- Takes away the answer to a field, and the entry with its last answer. -/
def clear (s : Store) (question field : String) : Store :=
  match s.entry? question with
  | none => s
  | some e => if e.holds field then s.edit question (e.drop field) else s

/-- Records the answer to a field of a question that has `count` fields. An empty
answer clears the field. -/
def set (s : Store) (question field : String) (count : Nat) (v : AnswerValue) : Store :=
  if v.isEmpty then s.clear question field
  else if count ≤ 1 then s.edit question (some (.single v))
  else s.edit question (some (Entry.put (s.entry? question) field v))

def remove (s : Store) (question : String) : Store :=
  if (s.entry? question).isSome then s.edit question none else s

def hasPending (s : Store) : Bool := !s.pending.isEmpty

def applyEdit (committed : Dict Entry) (question : String) : Option Entry → Dict Entry
  | some e => committed.insert question e
  | none => committed.erase question

def merge (s : Store) : Store :=
  { s with
    committed := s.pending.entries.foldl
      (fun committed (question, e) => applyEdit committed question e) s.committed
    pending := ∅ }.forget

def discard (s : Store) : Store := { s with pending := ∅ }.forget

def snapshot (s : Store) : Snapshot := ⟨s.committed, s.pending⟩

def restore (s : Store) (saved : Snapshot) : Store :=
  { s with committed := saved.committed, pending := saved.pending }.forget

/-- Starts over from committed entries. -/
def load (s : Store) (committed : Dict Entry) : Store :=
  { s with committed := committed, pending := ∅ }.forget

def setPrior (s : Store) (prior : Dict AnswerValue) : Store := { s with prior := prior }.forget

def setLegacy (s : Store) (index : LegacyIndex) : Store := { s with legacy := index }.forget

/-- The number of fields of a question, counted from its markup at the first request. -/
def fieldCount (s : Store) (question markup : String) : Nat × Store :=
  match s.fieldCounts.get? question with
  | some count => (count, s)
  | none =>
    let count := countFields markup
    (count, { s with fieldCounts := s.fieldCounts.insert question count })

end Store

end Questionnaire
