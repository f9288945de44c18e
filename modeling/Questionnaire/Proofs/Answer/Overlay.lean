import Mathlib.Logic.Function.Basic
import Questionnaire.Proofs.Answer.Lookup

/-! Pending edits over committed entries, seen as two maps: the entry that every question has
at present, and the one that storage holds. An edit changes the present entry of one
question, merging makes the present entries the stored ones, discarding makes the stored
entries the present ones, and a snapshot is the pair of maps at its moment. -/
namespace Questionnaire

/-- The entries of all questions, at present and in storage. -/
structure Ledger where
  live : String → Option Entry
  committed : String → Option Entry

/-- What changes the answers that a store holds. -/
inductive Store.Change where
  | set (question field : String) (count : Nat) (v : AnswerValue)
  | clear (question field : String)
  | remove (question : String)
  | merge
  | discard

/-- Changes, snapshots, and returns to the snapshot with a number. -/
inductive Store.Operation where
  | change (c : Store.Change)
  | snapshot
  | restore (number : Nat)

namespace Ledger

/-- The entry with an answer to one of `count` fields. The answer to an only field stands bare;
any other stands under the key of its field, beside those that stand under keys already. -/
def recorded (count : Nat) (field : String) (v : AnswerValue) (before : Option Entry) : Entry :=
  if count ≤ 1 then .single v
  else
    match before with
    | some (.keyed answers) => .keyed (answers.insert field v)
    | some (.single _) | none => .keyed (Dict.empty.insert field v)

/-- The entry without the answer to a field. A bare entry goes away whatever the field is, one
with keys when its last answer does. -/
def cleared (field : String) : Option Entry → Option Entry
  | none | some (.single _) => none
  | some (.keyed answers) =>
    if (answers.get? field).isNone then some (.keyed answers)
    else if (answers.erase field).isEmpty then none
    else some (.keyed (answers.erase field))

def put (m : Ledger) (question : String) (e : Option Entry) : Ledger :=
  { m with live := Function.update m.live question e }

def change (m : Ledger) : Store.Change → Ledger
  | .set question field count v =>
    m.put question
      (if v.isEmpty then cleared field (m.live question)
      else some (recorded count field v (m.live question)))
  | .clear question field => m.put question (cleared field (m.live question))
  | .remove question => m.put question none
  | .merge => ⟨m.live, m.live⟩
  | .discard => ⟨m.committed, m.committed⟩

/-- A ledger with the ledgers captured so far, the first one first. -/
def perform : Ledger × List Ledger → Store.Operation → Ledger × List Ledger
  | (m, captured), .change c => (m.change c, captured)
  | (m, captured), .snapshot => (m, captured ++ [m])
  | (m, captured), .restore number => (captured[number]?.getD m, captured)

end Ledger

namespace Store
variable {s : Store}

def change (s : Store) : Change → Store
  | .set question field count v => s.set question field count v
  | .clear question field => s.clear question field
  | .remove question => s.remove question
  | .merge => s.merge
  | .discard => s.discard

/-- A store with the snapshots taken so far, the first one first. There is nothing to return to
under a number that no snapshot has. -/
def perform : Store × List Snapshot → Operation → Store × List Snapshot
  | (s, taken), .change c => (s.change c, taken)
  | (s, taken), .snapshot => (s, taken ++ [s.snapshot])
  | (s, taken), .restore number => ((taken[number]?.map s.restore).getD s, taken)

def ledger (s : Store) : Ledger := ⟨s.entry?, s.committed.get?⟩

/-- The maps that a snapshot captures: those of a store with its two halves. -/
def Snapshot.ledger (saved : Snapshot) : Ledger :=
  Store.ledger { committed := saved.committed, pending := saved.pending }

theorem snapshot_ledger (s : Store) : s.snapshot.ledger = s.ledger := rfl

theorem restore_ledger (s : Store) (saved : Snapshot) : (s.restore saved).ledger = saved.ledger :=
  rfl

theorem edit_ledger (s : Store) (question : String) (e : Option Entry) :
    (s.edit question e).ledger = s.ledger.put question e := by
  have live : Store.entry? (s.edit question e) = Function.update s.entry? question e := by
    funext q
    by_cases same : q = question
    · subst same
      rw [Function.update_self]
      exact entry?_edit s q e
    · rw [Function.update_of_ne same, Store.entry?, Store.entry?, edit, forget,
        Dict.get?_insert, if_neg same]
  exact congrArg (Ledger.mk · s.committed.get?) live

/-- An entry that stays as it is. -/
theorem put_entry? (s : Store) (question : String) :
    s.ledger.put question (s.entry? question) = s.ledger :=
  congrArg (Ledger.mk · s.committed.get?) (Function.update_eq_self question s.entry?)

theorem clear_ledger (s : Store) (question field : String) :
    (s.clear question field).ledger =
      s.ledger.put question (Ledger.cleared field (s.entry? question)) := by
  have kept {e : Option Entry} (held : s.entry? question = e) :
      s.ledger = s.ledger.put question e := by rw [← held, put_entry?]
  unfold clear
  split
  · next absent =>
    rw [absent]
    exact kept absent
  · next e held =>
    rw [held]
    cases e with
    | single v => exact edit_ledger s question none
    | keyed answers =>
      have answered : (answers.get? field).isNone = !(Entry.keyed answers).holds field := by
        rw [Entry.holds, Dict.contains]
        cases answers.get? field <;> rfl
      simp only [Ledger.cleared, answered]
      split
      · next held =>
        rw [held]
        exact edit_ledger s question _
      · next unheld =>
        simp only [unheld, Bool.not_false, if_true]
        exact kept held

theorem put_recorded {count : Nat} (several : ¬count ≤ 1) (e : Option Entry) (field : String)
    (v : AnswerValue) : Entry.put e field v = Ledger.recorded count field v e := by
  unfold Entry.put Ledger.recorded
  rw [if_neg several]
  cases e with
  | none => rfl
  | some e => cases e <;> rfl

theorem set_ledger (s : Store) (question field : String) (count : Nat) (v : AnswerValue) :
    (s.set question field count v).ledger = s.ledger.put question
      (if v.isEmpty then Ledger.cleared field (s.entry? question)
      else some (Ledger.recorded count field v (s.entry? question))) := by
  unfold set
  split
  · exact clear_ledger s question field
  · split
    · next only =>
      have bare : Ledger.recorded count field v (s.entry? question) = .single v := if_pos only
      rw [bare]
      exact edit_ledger s question _
    · next several =>
      rw [put_recorded several]
      exact edit_ledger s question _

theorem remove_ledger (s : Store) (question : String) :
    (s.remove question).ledger = s.ledger.put question none := by
  unfold remove
  split
  · exact edit_ledger s question none
  · next unanswered =>
    have absent : s.entry? question = none := by simpa using unanswered
    rw [← absent, put_entry?]

theorem merge_ledger (s : Store) : s.merge.ledger = ⟨s.entry?, s.entry?⟩ := by
  have stored : s.merge.committed.get? = s.entry? := funext s.merge_get?
  have live : s.merge.entry? = s.merge.committed.get? := rfl
  rw [ledger, live, stored]

theorem change_ledger (s : Store) (c : Change) : (s.change c).ledger = s.ledger.change c := by
  cases c with
  | set question field count v => exact set_ledger s question field count v
  | clear question field => exact clear_ledger s question field
  | remove question => exact remove_ledger s question
  | merge => exact merge_ledger s
  | discard => rfl

/-- A store and its snapshots, each seen as two maps. -/
def ledgers (state : Store × List Snapshot) : Ledger × List Ledger :=
  (state.1.ledger, state.2.map Snapshot.ledger)

theorem perform_ledgers (state : Store × List Snapshot) (operation : Operation) :
    ledgers (perform state operation) = Ledger.perform (ledgers state) operation := by
  obtain ⟨s, taken⟩ := state
  cases operation with
  | change c => exact congrArg (·, taken.map Snapshot.ledger) (change_ledger s c)
  | snapshot =>
    simp only [ledgers, perform, Ledger.perform, List.map_append, List.map_singleton,
      snapshot_ledger]
  | restore number =>
    simp only [ledgers, perform, Ledger.perform, List.getElem?_map]
    cases taken[number]? with
    | none => rfl
    | some saved => exact congrArg (·, taken.map Snapshot.ledger) (restore_ledger s saved)

/-- Whatever is done to a store, its entries and its committed entries are those of two maps of
which edits change the present one, merging and discarding copy one to the other, and going
back to a snapshot brings back the pair that it captured. -/
theorem run_ledgers (s : Store) (operations : List Operation) :
    ledgers (operations.foldl perform (s, [])) =
      operations.foldl Ledger.perform (s.ledger, []) := by
  have run (state : Store × List Snapshot) :
      ledgers (operations.foldl perform state) =
        operations.foldl Ledger.perform (ledgers state) := by
    induction operations generalizing state with
    | nil => rfl
    | cons operation operations ih => rw [List.foldl_cons, List.foldl_cons, ih, perform_ledgers]
  exact run (s, [])

end Store

end Questionnaire
