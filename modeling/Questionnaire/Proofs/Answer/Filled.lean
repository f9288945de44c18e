import Questionnaire.Proofs.Answer.Cache
import Questionnaire.Proofs.Answer.Every

/-! Whoever has an entry has answered. No operation of a store leaves an empty value behind, or an
entry without answers: an empty answer clears its field, and the last answer that is cleared takes
the entry with it. -/
namespace Questionnaire

namespace Entry
variable {e left : Entry} {key : String} {v : AnswerValue}

/-- A bare value that is not empty, or at least one answer under a key and none that is empty. -/
inductive Filled : Entry → Prop
  | single {v : AnswerValue} (answered : v.isEmpty = false) : Filled (.single v)
  | keyed {answers : Dict AnswerValue} (present : answers.isEmpty = false)
    (answered : ∀ key v, answers.get? key = some v → v.isEmpty = false) : Filled (.keyed answers)

theorem Filled.drop (filled : e.Filled) (dropped : e.drop key = some left) : left.Filled := by
  cases filled with
  | single => cases dropped
  | @keyed answers _ answered =>
    simp only [Entry.drop, Option.ite_none_left_eq_some, Option.some.injEq] at dropped
    obtain ⟨present, rfl⟩ := dropped
    refine .keyed (Bool.eq_false_iff.2 present) fun name v held => ?_
    rw [Dict.get?_erase, Option.ite_none_left_eq_some] at held
    exact answered name v held.2

theorem Filled.put {e : Option Entry} (filled : ∀ earlier, e = some earlier → earlier.Filled)
    (answered : v.isEmpty = false) : (Entry.put e key v).Filled := by
  have inserted {answers : Dict AnswerValue}
      (others : ∀ name w, answers.get? name = some w → w.isEmpty = false) :
      (Entry.keyed (answers.insert key v)).Filled := by
    have present : (answers.insert key v).get? key = some v := by rw [Dict.get?_insert, if_pos rfl]
    refine .keyed (Dict.isEmpty_eq_false present) fun name w held => ?_
    rw [Dict.get?_insert] at held
    split at held
    · exact Option.some.inj held ▸ answered
    · exact others name w held
  unfold Entry.put
  split
  · next answers =>
    cases filled _ rfl with
    | keyed _ others => exact inserted others
  · exact inserted fun _ _ held => by cases held

/-- Every field that the entry has an answer to is among these, and a bare entry, which answers to
any field, has at least one of them. -/
def CoveredBy (fields : List String) : Entry → Prop
  | single _ => fields ≠ []
  | keyed answers => ∀ key v, answers.get? key = some v → key ∈ fields

/-- What is left of an entry when a field has been cleared has the same answers otherwise. -/
theorem cleared_eq_some {field : String} {e : Option Entry}
    (kept : Ledger.cleared field e = some left) :
    ∃ answers rest : Dict AnswerValue, e = some (.keyed answers) ∧ left = .keyed rest ∧
      (∀ key, rest.get? key = if key = field then none else answers.get? key) ∧
      (rest = answers ∨ rest.isEmpty = false) := by
  unfold Ledger.cleared at kept
  split at kept
  · cases kept
  · cases kept
  · next answers =>
    split at kept
    · next absent =>
      refine ⟨answers, answers, rfl, (Option.some.inj kept).symm, fun key => ?_, .inl rfl⟩
      split
      · next same => rw [same, Option.isNone_iff_eq_none.1 absent]
      · rfl
    · split at kept
      · cases kept
      · next present =>
        exact ⟨answers, answers.erase field, rfl, (Option.some.inj kept).symm,
          answers.get?_erase field, .inr (Bool.eq_false_iff.2 present)⟩

/-- A filled entry is gone once all its fields have been cleared. -/
theorem foldl_cleared_eq_none {fields : List String} {e : Option Entry}
    (filled : ∀ held, e = some held → held.Filled)
    (covered : ∀ held, e = some held → held.CoveredBy fields) :
    fields.foldl (fun e field => Ledger.cleared field e) e = none := by
  induction fields generalizing e with
  | nil =>
    cases e with
    | none => rfl
    | some e =>
      have nothing := covered e rfl
      cases filled e rfl with
      | single => exact absurd rfl nothing
      | keyed present =>
        obtain ⟨key, v, held⟩ := Dict.exists_get? present
        exact absurd (nothing key v held) List.not_mem_nil
  | cons field fields ih =>
    refine ih (fun left kept => ?_) fun left kept => ?_
    · obtain ⟨answers, rest, rfl, rfl, same, whole⟩ := cleared_eq_some kept
      cases filled _ rfl with
      | keyed present answered =>
        refine .keyed (whole.elim (fun whole => whole ▸ present) id) fun key v held => ?_
        rw [same, Option.ite_none_left_eq_some] at held
        exact answered key v held.2
    · obtain ⟨answers, rest, rfl, rfl, same, -⟩ := cleared_eq_some kept
      intro key v held
      rw [same, Option.ite_none_left_eq_some] at held
      exact (List.mem_cons.1 (covered _ rfl key v held.2)).resolve_left held.1

end Entry

namespace Store
variable {s : Store} {q field : String}

/-- Every entry, pending or committed, is filled. -/
def Filled (s : Store) : Prop := s.Every fun _ e => e.Filled

theorem Filled.clear (filled : s.Filled) : (s.clear q field).Filled :=
  Every.clear filled fun _ _ held dropped => (Every.present filled held).drop dropped

theorem Filled.set (filled : s.Filled) (count : Nat) (v : AnswerValue) :
    (s.set q field count v).Filled := by
  unfold Store.set
  split
  · exact filled.clear
  · next answered =>
    have answered := Bool.eq_false_iff.2 answered
    split
    · exact Every.edit filled fun _ new => Option.some.inj new ▸ .single answered
    · refine Every.edit filled fun _ new => Option.some.inj new ▸ ?_
      exact .put (fun _ held => Every.present filled held) answered

theorem Filled.change (filled : s.Filled) (c : Change) : (s.change c).Filled := by
  cases c with
  | set question field count v => exact filled.set count v
  | clear question field => exact filled.clear
  | remove question => exact Every.remove filled
  | merge => exact Every.merge filled
  | discard => exact Every.discard filled

theorem entry?_foldl_clear (s : Store) (q : String) (fields : List String) :
    Store.entry? (fields.foldl (fun t field => t.clear q field) s) q =
      fields.foldl (fun e field => Ledger.cleared field e) (s.entry? q) := by
  induction fields generalizing s with
  | nil => rfl
  | cons field fields ih =>
    have cleared : Store.entry? (s.clear q field) q = Ledger.cleared field (s.entry? q) := by
      have live := congrArg (Ledger.live · q) (clear_ledger s q field)
      exact live.trans (Function.update_self ..)
    rw [List.foldl_cons, List.foldl_cons, ih, cleared]

/-! ### Runs -/

/-- What may be done to a store: changes, snapshots and returns to them, and a new start from
committed entries. -/
inductive Act where
  | operation (o : Operation)
  | load (committed : Dict Entry)

def act : Store × List Snapshot → Act → Store × List Snapshot
  | state, .operation o => perform state o
  | (s, taken), .load committed => (s.load committed, taken)

/-- Entries that are loaded are filled. -/
def Act.Lawful : Act → Prop
  | .operation _ => True
  | .load committed => ∀ question e, committed.get? question = some e → e.Filled

/-- A store and its snapshots hold filled entries only. -/
structure AllFilled (state : Store × List Snapshot) : Prop where
  store : state.1.Filled
  taken : ∀ saved ∈ state.2, saved.Every fun _ e => e.Filled

theorem AllFilled.perform {state : Store × List Snapshot} (filled : AllFilled state)
    (operation : Operation) : AllFilled (perform state operation) := by
  obtain ⟨s, taken⟩ := state
  cases operation with
  | change c => exact ⟨filled.store.change c, filled.taken⟩
  | snapshot =>
    refine ⟨filled.store, List.forall_mem_append.2 ⟨filled.taken, ?_⟩⟩
    exact List.forall_mem_singleton.2 filled.store
  | restore number =>
    refine ⟨?_, filled.taken⟩
    change Filled ((taken[number]?.map s.restore).getD s)
    cases found : taken[number]? with
    | none => exact filled.store
    | some saved => exact filled.taken saved (List.mem_of_getElem? found)

theorem AllFilled.act {state : Store × List Snapshot} (filled : AllFilled state) {a : Act}
    (lawful : a.Lawful) : AllFilled (act state a) := by
  cases a with
  | operation o => exact filled.perform o
  | load committed => exact ⟨every_load lawful, filled.taken⟩

theorem AllFilled.foldl_act {state : Store × List Snapshot} (filled : AllFilled state)
    {acts : List Act} (lawful : ∀ a ∈ acts, a.Lawful) : AllFilled (acts.foldl Store.act state) := by
  induction acts generalizing state with
  | nil => exact filled
  | cons a acts ih =>
    obtain ⟨first, later⟩ := List.forall_mem_cons.1 lawful
    exact ih (filled.act first) later

/-- However a store that began empty is changed, loaded and brought back to earlier states, each of
its entries is a value that is not empty, or has answers, none of them empty; and clearing the
fields of a question one after the other, in whatever order, leaves it without an entry. -/
theorem entries_filled (owners : Dict String) (acts : List Act) (lawful : ∀ a ∈ acts, a.Lawful) :
    let s := (acts.foldl act (ofRowOwners owners, [])).1
    (∀ question e, s.committed.get? question = some e → e.Filled) ∧
    (∀ question e, s.pending.get? question = some (some e) → e.Filled) ∧
    ∀ question fields, (∀ e, s.entry? question = some e → e.CoveredBy fields) →
      let t := fields.foldl (fun t field => t.clear question field) s
      t.entry? question = none ∧ t.merge.committed.get? question = none := by
  intro s
  have nothing : (ofRowOwners owners).Filled :=
    ⟨fun _ _ held => (by cases held), fun _ _ held => (by cases held)⟩
  have empty : AllFilled (ofRowOwners owners, []) := ⟨nothing, List.forall_mem_nil _⟩
  have filled : s.Filled := (empty.foldl_act lawful).store
  refine ⟨filled.committed, filled.pending, fun question fields covered => ?_⟩
  intro t
  have cleared : t.entry? question = none := by
    rw [entry?_foldl_clear]
    exact Entry.foldl_cleared_eq_none (fun _ => Every.present filled) covered
  exact ⟨cleared, (merge_get? t question).trans cleared⟩

/-- Loaded answers, one of them cleared by an empty text, and a return to the state before. -/
def clearings : List Act :=
  [.load (.ofList [("Q", .keyed (.ofList [("a", .one "1")]))]),
    .operation (.change (.set "Q" "b" 2 (.many ["x", ""]))), .operation .snapshot,
    .operation (.change (.set "Q" "a" 2 (.one ""))), .operation (.change .merge),
    .operation (.change (.clear "Q" "b")), .operation (.restore 0)]

theorem entries_filled_clearings : (∀ a ∈ clearings, a.Lawful) ∧
    let s := (clearings.foldl act (ofRowOwners ∅, [])).1
    let e := Entry.keyed (.ofList [("a", .one "1"), ("b", .many ["x", ""])])
    s.pending.get? "Q" = some (some e) ∧ e.Filled ∧ e.CoveredBy ["b", "a"] ∧
      Store.entry? ((s.clear "Q" "b").clear "Q" "a") "Q" = none := by
  have lawful : ∀ a ∈ clearings, a.Lawful := by
    simp only [clearings, List.forall_mem_cons, Act.Lawful, List.not_mem_nil, false_imp_iff,
      implies_true, and_true]
    intro question e held
    simp only [Dict.ofList, List.foldl_cons, List.foldl_nil, Dict.get?_insert, Dict.get?_empty,
      Option.ite_none_right_eq_some, Option.some.injEq] at held
    rw [← held.2]
    refine .keyed rfl fun key v answer => ?_
    simp only [Dict.get?_insert, Dict.get?_empty, Option.ite_none_right_eq_some,
      Option.some.injEq] at answer
    rw [← answer.2]
    rfl
  have covered : (Entry.keyed (.ofList [("a", .one "1"), ("b", .many ["x", ""])])).CoveredBy
      ["b", "a"] := by
    intro key v held
    simp only [Dict.ofList, List.foldl_cons, List.foldl_nil, Dict.get?_insert, Dict.get?_empty] at held
    split at held
    · simp [*]
    · split at held
      · simp [*]
      · cases held
  obtain ⟨-, pending, gone⟩ := entries_filled ∅ clearings lawful
  refine ⟨lawful, rfl, pending "Q" _ rfl, covered, (gone "Q" ["b", "a"] fun e held => ?_).1⟩
  exact Option.some.inj held ▸ covered

end Store

end Questionnaire
