import Questionnaire.Proofs.Answer.Store
import Questionnaire.Proofs.Text.Cut

/-! Answers looked up by the name of their field. An entry with one answer stands for its
question under the question's own name, and an answer to a field is found under the field
and the question as long as there is no point in the key of the field. -/
namespace Questionnaire

namespace Entry
variable {key : String} {v : AnswerValue}

/-- An entry that has no answer but the one to a field. -/
def StandsFor (key : String) : Entry → Prop
  | single _ => True
  | keyed answers => ∀ other, other ≠ key → answers.get? other = none

theorem put_field? (e : Option Entry) (key : String) (v : AnswerValue) :
    (put e key v).field? key = some v := by
  unfold put
  split <;> simp [field?]

theorem StandsFor.primary? {e : Entry} (alone : e.StandsFor key) (held : e.field? key = some v) :
    e.primary? = some v := by
  cases e with
  | single other => exact held
  | keyed answers =>
    have own {name : String} {w : AnswerValue} (member : (name, w) ∈ answers.entries) :
        name = key := by
      refine Decidable.byContradiction fun other => ?_
      cases (alone name other).symm.trans (Dict.mem_entries.1 member)
    have member : (key, v) ∈ answers.entries := Dict.mem_entries.2 held
    -- Names stand in ascending order, so no second entry has the same one.
    cases entries : answers.entries with
    | nil => rw [entries] at member; cases member
    | cons first rest =>
      cases rest with
      | nil =>
        rw [entries, List.mem_singleton] at member
        subst member
        simp [Entry.primary?, entries]
      | cons second rest =>
        have ascending := answers.ascending
        rw [entries] at ascending
        have lt := (List.pairwise_cons.1 ascending).1 second List.mem_cons_self
        have front : first ∈ answers.entries := by simp [entries]
        have behind : second ∈ answers.entries := by simp [entries]
        rw [own front, own behind] at lt
        exact absurd lt Std.lt_irrefl

end Entry

theorem compoundName_of_ne {field question : String}
    (apart : compoundName field question ≠ question) :
    compoundName field question = field ++ "." ++ question := by
  unfold compoundName at apart ⊢
  split at apart
  · exact absurd rfl apart
  · next named => rw [if_neg named]

namespace Store
variable {s : Store} {field question name : String} {e : Entry}

theorem numeral?_identifier (shaped : isIdentifier name = true) : numeral? name = none := by
  simp [numeral?, shaped]

theorem live?_plain (s : Store) (plain : '.' ∉ name.toList) :
    s.live? name = s.livePrimary? name := by
  have none : Text.cutAt? (· == '.') name = none := by
    rw [Text.cutAt?, Option.map_eq_none_iff, Text.cutAtChars?_eq_none]
    intro x member
    exact beq_eq_false_iff_ne.2 fun same => plain (same ▸ member)
  rw [live?, none]

theorem live?_field (s : Store) (plain : '.' ∉ field.toList) :
    s.live? (field ++ "." ++ question) = s.liveField? field question := by
  have others : ∀ x ∈ field.toList, (x == '.') = false := fun x member =>
    beq_eq_false_iff_ne.2 fun same => plain (same ▸ member)
  have cut : Text.cutAt? (· == '.') (field ++ "." ++ question) = some (field, question) := by
    have text : (field ++ "." ++ question).toList = field.toList ++ '.' :: question.toList := by
      simp [String.toList_append]
    simp [Text.cutAt?, text, Text.cutAtChars?_append others]
  rw [live?, cut]

/-- What is live under the name of a field is what the entry of the question holds for it. -/
theorem liveValue?_entry {v : AnswerValue} (held : s.entry? question = some e)
    (answered : e.field? field = some v) (plain : '.' ∉ field.toList)
    (named : '.' ∉ question.toList)
    (own : compoundName field question = question → e.StandsFor field) :
    s.liveValue? field question = some v := by
  unfold liveValue?
  by_cases same : compoundName field question = question
  · rw [same, live?_plain s named, livePrimary?, held]
    exact (own same).primary? answered
  · rw [compoundName_of_ne same, live?_field s plain, liveField?, held]
    exact answered

theorem entry?_edit (s : Store) (question : String) (e : Option Entry) :
    Store.entry? (s.edit question e) question = e := by
  simp [edit, forget, Store.entry?]

theorem edit_coherent (s : Store) (question : String) (e : Option Entry) :
    (s.edit question e).Coherent :=
  forget_coherent _

/-- A field that is given an answer has it, and nothing is remembered from before. -/
theorem set_answered (s : Store) (question field : String) (count : Nat) {v : AnswerValue}
    (answered : v.isEmpty = false) : (s.set question field count v).Coherent ∧
      ∃ e, Store.entry? (s.set question field count v) question = some e ∧
        e.field? field = some v := by
  simp only [set, answered, Bool.false_eq_true, if_false]
  split
  · exact ⟨edit_coherent _ _ _, .single v, entry?_edit _ _ _, rfl⟩
  · exact ⟨edit_coherent _ _ _, _, entry?_edit _ _ _, Entry.put_field? _ _ _⟩

end Store

end Questionnaire
