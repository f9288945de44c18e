import Questionnaire.Answer.Store
import Questionnaire.Proofs.Dict

/-! What changes of the answers leave alone, and what lookups find. Edits of a question
touch its pending entry and nothing else; what a lookup remembers is what it would find
again. -/
namespace Questionnaire.Store
variable {s t u : Store} {question field name : String}

/-- Stores that look beyond their own answers in the same places. -/
structure SameGround (s t : Store) : Prop where
  prior : t.prior = s.prior
  legacy : t.legacy = s.legacy
  rowOwners : t.rowOwners = s.rowOwners

theorem SameGround.refl (s : Store) : SameGround s s := ⟨rfl, rfl, rfl⟩

theorem SameGround.trans (first : SameGround s t) (second : SameGround t u) : SameGround s u where
  prior := second.prior.trans first.prior
  legacy := second.legacy.trans first.legacy
  rowOwners := second.rowOwners.trans first.rowOwners

/-- A store with other edits of one question. -/
structure EditedAt (question : String) (s t : Store) : Prop extends SameGround s t where
  committed : t.committed = s.committed
  others : ∀ q, q ≠ question → t.pending.get? q = s.pending.get? q

theorem EditedAt.refl (question : String) (s : Store) : EditedAt question s s :=
  ⟨.refl s, rfl, fun _ _ => rfl⟩

theorem EditedAt.trans (first : EditedAt question s t) (second : EditedAt question t u) :
    EditedAt question s u where
  toSameGround := first.toSameGround.trans second.toSameGround
  committed := second.committed.trans first.committed
  others q other := (second.others q other).trans (first.others q other)

theorem EditedAt.entry? (edited : EditedAt question s t) {q : String} (other : q ≠ question) :
    t.entry? q = s.entry? q := by
  unfold Store.entry?
  rw [edited.others q other, edited.committed]

theorem edit_editedAt (s : Store) (question : String) (e : Option Entry) :
    EditedAt question s (s.edit question e) where
  toSameGround := ⟨rfl, rfl, rfl⟩
  committed := rfl
  others q other := by simp [edit, forget, other]

theorem clear_editedAt (s : Store) (question field : String) :
    EditedAt question s (s.clear question field) := by
  unfold clear
  split
  · exact .refl question s
  · split
    · exact edit_editedAt s question _
    · exact .refl question s

theorem set_editedAt (s : Store) (question field : String) (count : Nat) (v : AnswerValue) :
    EditedAt question s (s.set question field count v) := by
  unfold set
  split
  · exact clear_editedAt s question field
  · split <;> exact edit_editedAt s question _

theorem fieldCount_editedAt (s : Store) (question markup : String) :
    EditedAt question s (s.fieldCount question markup).2 := by
  unfold fieldCount
  split <;> exact ⟨⟨rfl, rfl, rfl⟩, rfl, fun _ _ => rfl⟩

theorem foldl_clear_editedAt (fields : List AnswerField) (s : Store) :
    EditedAt question s (fields.foldl (fun store f => store.clear question f.key) s) := by
  induction fields generalizing s with
  | nil => exact .refl question s
  | cons f fields ih => exact (clear_editedAt s question f.key).trans (ih _)

/-! Merging and going back -/

theorem applyEdit_get? (committed : Dict Entry) (question : String) (e : Option Entry)
    (q : String) : (applyEdit committed question e).get? q =
      if q = question then e else committed.get? q := by
  cases e with
  | some e => simp [applyEdit]
  | none => simp [applyEdit]

/-- Merging makes the present entry of every question its committed entry. -/
theorem merge_get? (s : Store) (q : String) : s.merge.committed.get? q = s.entry? q := by
  have folded := Dict.foldl_entries s.pending
    (fun committed (edit : String × Option Entry) => applyEdit committed edit.1 edit.2)
    (Dict.get? · q) q (fun e _ => e) (fun committed e => by simp [applyEdit_get?])
    (fun committed question e other => by simp [applyEdit_get?, Ne.symm other]) s.committed
  refine folded.trans ?_
  unfold entry?
  cases s.pending.get? q <;> rfl

/-! Lookup -/

/-- What a name stands for, whatever earlier lookups have found. -/
def answer? (s : Store) (name : String) : Option AnswerValue := (numeral? name).or (s.find? name)

/-- Stores that differ in nothing but what they remember. -/
structure SameAnswers (s t : Store) : Prop extends SameGround s t where
  committed : t.committed = s.committed
  pending : t.pending = s.pending

theorem SameAnswers.answer? (same : SameAnswers s t) (name : String) :
    t.answer? name = s.answer? name := by
  obtain ⟨committed, pending, counts, resolved, prior, legacy, owners⟩ := t
  obtain ⟨⟨rfl, rfl, rfl⟩, rfl, rfl⟩ := same
  rfl

/-- Whatever is remembered would be found again. -/
def Coherent (s : Store) : Prop :=
  ∀ name v, s.resolved.get? name = some v → s.find? name = some v

theorem forget_coherent (s : Store) : s.forget.Coherent := by
  intro name v remembered
  cases remembered

theorem lookup_same (s : Store) (name : String) : SameAnswers s (s.lookup name).2 := by
  unfold lookup
  repeat' split
  all_goals exact ⟨⟨rfl, rfl, rfl⟩, rfl, rfl⟩

theorem Coherent.lookup (coherent : s.Coherent) (name : String) :
    (s.lookup name).1 = s.answer? name ∧ (s.lookup name).2.Coherent := by
  unfold Store.lookup Store.answer?
  cases numeral? name with
  | some v => exact ⟨rfl, coherent⟩
  | none =>
    rw [Option.none_or]
    cases remembered : s.resolved.get? name with
    | some v => exact ⟨(coherent name v remembered).symm, coherent⟩
    | none =>
      cases found : s.find? name with
      | none => exact ⟨rfl, coherent⟩
      | some v =>
        refine ⟨rfl, fun other w held => ?_⟩
        change s.find? other = some w
        rw [Dict.get?_insert] at held
        split at held
        · next same =>
          subst same
          rw [found, held]
        · exact coherent other w held

def lookups (s : Store) (names : List String) : Store :=
  names.foldl (fun s name => (s.lookup name).2) s

/-- However many lookups come before, a lookup gives the answer. -/
theorem Coherent.lookups (coherent : s.Coherent) (names : List String) (name : String) :
    ((s.lookups names).lookup name).1 = s.answer? name := by
  induction names generalizing s with
  | nil => exact (coherent.lookup name).1
  | cons first names ih =>
    have later := ih (coherent.lookup first).2
    rw [(lookup_same s first).answer?] at later
    exact later

end Questionnaire.Store
