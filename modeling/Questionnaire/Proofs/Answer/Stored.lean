import Questionnaire.Answer.ChangeSet
import Questionnaire.Answer.Entry
import Questionnaire.Proofs.Json.Text

/-! The stored form of answers. Names within a survey stay apart when they are qualified,
a change set does to each name what it says about it, and an entry is read back from what
was written for it. -/
namespace Questionnaire

theorem qualifiedName_inj {survey a b : String} :
    qualifiedName survey a = qualifiedName survey b ↔ a = b := by
  constructor
  · intro same
    have chars := congrArg String.toList same
    simp only [qualifiedName, String.toList_append] at chars
    exact String.toList_injective (List.append_cancel_left chars)
  · exact congrArg _

/-- What a stored value leaves behind. -/
def Json.kept? : Json → Option Json
  | null => none
  | j => some j

/-- Nothing stored has more than four levels, nor is it a number. -/
def Dict.Plain (d : Dict Json) : Prop := ∀ name value, d.get? name = some value → value.Plain 4

theorem Json.Plain.kept {depth : Nat} {value kept : Json} (plain : value.Plain depth)
    (keeps : value.kept? = some kept) : kept.Plain depth := by
  cases value with
  | null => cases keeps
  | _ => cases keeps; exact plain

namespace ChangeSet

def Plain (c : ChangeSet) : Prop := ∀ key value, c.get? key = some value → value.Plain 4

@[simp] theorem get?_insert (c : ChangeSet) (survey name : String) (value : Json) (key : String) :
    (c.insert survey name value).get? key =
      if key = qualifiedName survey name then some value else c.get? key :=
  Dict.get?_insert _ _ _ _

theorem applyTo_get? (c : ChangeSet) (saved : Dict Json) (key : String) :
    (c.applyTo saved).get? key = (c.get? key).elim (saved.get? key) Json.kept? := by
  refine Dict.foldl_entries c.entries _ (Dict.get? · key) key (fun value _ => value.kept?) ?_ ?_
    saved
  · intro saved value
    cases value <;> simp [Json.kept?]
  · intro saved other value different
    cases value <;> simp [Ne.symm different]

theorem Plain.insert {c : ChangeSet} {value : Json} (plain : c.Plain) (survey name : String)
    (added : value.Plain 4) : (c.insert survey name value).Plain := by
  intro key found held
  rw [get?_insert] at held
  split at held
  · cases held
    exact added
  · exact plain key found held

theorem Plain.applyTo {c : ChangeSet} {saved : Dict Json} (plain : c.Plain) (before : saved.Plain) :
    (c.applyTo saved).Plain := by
  intro key value held
  rw [applyTo_get?] at held
  cases changed : c.get? key with
  | none =>
    rw [changed] at held
    exact before key value held
  | some change =>
    rw [changed] at held
    exact (plain key change changed).kept held

end ChangeSet

namespace Entry

theorem toJson_plain (e : Entry) : e.toJson.Plain 2 := by
  have value (v : AnswerValue) : v.toJson.Plain 1 := by
    cases v with
    | one s => exact .text s
    | many items => exact .ofTexts 0 items
  cases e with
  | single v => exact (value v).mono (by decide)
  | keyed answers =>
    refine .object (answers.mapValues AnswerValue.toJson).ascending fun f member => ?_
    obtain ⟨answer, -, rfl⟩ := List.mem_map.1 member
    exact value answer.2

theorem toJson_kept (e : Entry) : e.toJson.kept? = some e.toJson := by
  cases e with
  | single v => cases v <;> rfl
  | keyed answers => rfl

theorem readAnswer?_toJson (answers : List (String × AnswerValue)) :
    (answers.map fun (key, v) => (key, v.toJson)).mapM readAnswer? = some answers := by
  induction answers with
  | nil => rfl
  | cons answer answers ih =>
    have first : readAnswer? (answer.1, answer.2.toJson) = some answer := by
      rw [readAnswer?, AnswerValue.ofJson?_toJson]
      rfl
    rw [List.map_cons, List.mapM_cons, first, ih]
    rfl

/-- An entry of either shape is read back from its stored form. -/
theorem ofJson?_toJson (e : Entry) : ofJson? e.toJson = some e := by
  cases e with
  | single v =>
    have single : ofJson? v.toJson = (AnswerValue.ofJson? v.toJson).map single := by
      cases v <;> rfl
    rw [toJson, single, AnswerValue.ofJson?_toJson]
    rfl
  | keyed answers =>
    have read := readAnswer?_toJson answers.entries
    simp only [toJson, Json.ofDict, Dict.mapValues, ofJson?, read, Option.map_some,
      Dict.ofList_entries]

end Entry

end Questionnaire
