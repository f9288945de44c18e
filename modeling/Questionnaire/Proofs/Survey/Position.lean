import Mathlib.Data.List.Nodup
import Questionnaire.Survey.Basic

/-! Records found by identifier. While no two records share one, a record stands where
it is found, and the record behind it is its successor. -/
namespace Questionnaire.Survey
variable {s : Survey} {before after : List Record} {r : Record}

theorem position?_of_split (distinct : (s.records.map Record.id).Nodup)
    (split : s.records = before ++ r :: after) : s.position? r.id = some before.length := by
  rw [split, List.map_append, List.nodup_append] at distinct
  have fresh : ∀ other ∈ before, (other.id == r.id) = false := fun other member =>
    beq_eq_false_iff_ne.2 (distinct.2.2 _ (List.mem_map_of_mem member) _ (by simp))
  have none : before.findIdx? (·.id == r.id) = none := by
    rw [List.findIdx?_eq_none_iff]
    exact fresh
  rw [position?, split, List.findIdx?_append, none]
  simp [List.findIdx?_cons]

theorem record?_of_mem (distinct : (s.records.map Record.id).Nodup) (member : r ∈ s.records) :
    s.record? r.id = some r := by
  cases found : s.record? r.id with
  | none =>
    have missing := List.find?_eq_none.1 found r member
    simp at missing
  | some other =>
    have same : other.id = r.id := by simpa using List.find?_some found
    rw [List.inj_on_of_nodup_map distinct (List.mem_of_find?_eq_some found) member same]

theorem mem_of_record? {id : String} (found : s.record? id = some r) :
    r ∈ s.records ∧ r.id = id :=
  ⟨List.mem_of_find?_eq_some found, by simpa using List.find?_some found⟩

theorem get?_of_record? {id : String} (found : s.record? id = some r) : s.get? id = some r := by
  rw [get?, found, Option.some_or]

theorem successor?_of_split (distinct : (s.records.map Record.id).Nodup)
    (split : s.records = before ++ r :: after) : s.successor? r.id = after.head? := by
  rw [successor?, position?_of_split distinct split, Option.bind_some, at?, split,
    List.getElem?_append_right (Nat.le_add_right _ 1), Nat.add_sub_cancel_left,
    List.getElem?_cons_succ, List.head?_eq_getElem?]

end Questionnaire.Survey
