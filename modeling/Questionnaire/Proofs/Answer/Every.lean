import Questionnaire.Proofs.Answer.Lookup

/-! What holds of every entry of a store. An edit brings one entry at most; merging, discarding and
going back to a snapshot bring none that was not there. -/
namespace Questionnaire.Store
variable {P : String → Entry → Prop} {s : Store} {q field : String} {e : Entry}

/-- Every entry, committed or pending, with its question. -/
structure Snapshot.Every (P : String → Entry → Prop) (saved : Snapshot) : Prop where
  committed : ∀ q e, saved.committed.get? q = some e → P q e
  pending : ∀ q e, saved.pending.get? q = some (some e) → P q e

def Every (P : String → Entry → Prop) (s : Store) : Prop := s.snapshot.Every P

theorem every_load {committed : Dict Entry} (each : ∀ q e, committed.get? q = some e → P q e) :
    (s.load committed).Every P :=
  ⟨each, fun _ _ held => by cases held⟩

theorem Every.present (every : s.Every P) (held : s.entry? q = some e) : P q e := by
  unfold Store.entry? at held
  split at held
  · next pending =>
    rw [held] at pending
    exact every.pending q e pending
  · exact every.committed q e held

theorem Every.edit (every : s.Every P) {new : Option Entry} (each : ∀ e, new = some e → P q e) :
    (s.edit q new).Every P where
  committed := every.committed
  pending name e held := by
    change (s.pending.insert q new).get? name = some (some e) at held
    rw [Dict.get?_insert] at held
    split at held
    · next same =>
      subst same
      exact each e (Option.some.inj held)
    · exact every.pending name e held

theorem Every.clear (every : s.Every P)
    (drops : ∀ e left, s.entry? q = some e → e.drop field = some left → P q left) :
    (s.clear q field).Every P := by
  unfold Store.clear
  split
  · exact every
  · next e held =>
    split
    · exact every.edit fun left dropped => drops e left held dropped
    · exact every

theorem Every.remove (every : s.Every P) : (s.remove q).Every P := by
  unfold Store.remove
  split
  · exact every.edit fun _ new => by cases new
  · exact every

theorem Every.merge (every : s.Every P) : s.merge.Every P where
  committed q e held := by
    change s.merge.committed.get? q = some e at held
    rw [merge_get?] at held
    exact every.present held
  pending q e held := by cases held

theorem Every.discard (every : s.Every P) : s.discard.Every P :=
  ⟨every.committed, fun _ _ held => by cases held⟩

end Questionnaire.Store
