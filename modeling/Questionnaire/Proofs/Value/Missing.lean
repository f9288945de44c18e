import Questionnaire.Expr.Function

/-! A missing answer beside an empty text. They are alike as truth values, for the connectives
and for the order relations. Equality and containment tell them apart, and only because of
lists and of the empty text as a part of every text: a missing answer equals what is empty,
an empty text equals what has an empty item. -/
namespace Questionnaire

theorem Decimal.text_ne_empty (d : Decimal) : d.text ≠ "" := by
  intro empty
  have chars := congrArg String.toList empty
  simp only [Decimal.text, String.toList_ofList, String.toList_empty, List.append_eq_nil_iff,
    List.take_eq_nil_iff] at chars
  obtain ⟨⟨-, none⟩, -⟩ := chars
  simp only [List.length_append, List.length_replicate, ← List.length_eq_zero_iff] at none
  omega

namespace Value

mutual

/-- Missing or empty text, or a list with such an item at some depth. -/
def hasBlank : Value → Bool
  | null => true
  | text s => s.isEmpty
  | list items => anyBlank items
  | bool _ | number _ | yearMonth _ => false

def anyBlank : List Value → Bool
  | [] => false
  | item :: items => item.hasBlank || anyBlank items

end

/-- A list without items, or one with an item that is missing or empty text, at some depth. -/
def isHollow : Value → Bool
  | list items => items.isEmpty || anyBlank items
  | _ => false

theorem isEmpty_eq_hasBlank_iff (v : Value) : v.isEmpty = v.hasBlank ↔ v.isHollow = false := by
  cases v with
  | list items => cases items <;> simp [isEmpty, hasBlank, isHollow, anyBlank]
  | null | text | bool | number | yearMonth => simp [isEmpty, hasBlank, isHollow]

/-! Equality -/

theorem asNumber?_blank : (text "").asNumber? = none := rfl

theorem asYearMonth?_blank : (text "").asYearMonth? = none := by decide

theorem equalsSingle_blank (v : Value) (single : ∀ items, v ≠ list items) :
    equalsSingle v (text "") = v.hasBlank ∧ equalsSingle (text "") v = v.hasBlank := by
  cases v with
  | null => exact ⟨rfl, rfl⟩
  | bool b => cases b <;> exact ⟨rfl, rfl⟩
  | number n =>
    have shown : n.plainText ≠ "" := n.normalize.text_ne_empty
    simp [equalsSingle, asNumber?_blank, display, hasBlank, shown, shown.symm]
  | text s =>
    have same : (s == "") = s.isEmpty := by rw [Bool.eq_iff_iff]; simp
    simp [equalsSingle, asNumber?_blank, display, hasBlank, same, Bool.beq_comm (a := "")]
  | list items => exact (single items rfl).elim
  | yearMonth m => simp [equalsSingle, asYearMonth?_blank, hasBlank]

mutual

theorem holds_blank (v : Value) : holds (text "") v = v.hasBlank := by
  match v with
  | list items => rw [holds, hasBlank, anyHolds_blank items]
  | null | bool _ | number _ | text _ | yearMonth _ =>
    rw [holds, (equalsSingle_blank _ (by simp)).1]
    simp

theorem anyHolds_blank (items : List Value) : anyHolds (text "") items = anyBlank items := by
  match items with
  | [] => rfl
  | item :: items => rw [anyHolds, anyBlank, holds_blank item, anyHolds_blank items]

end

theorem looseEq_missing (v : Value) : looseEq v null = v.isEmpty ∧ looseEq null v = v.isEmpty := by
  cases v <;> exact ⟨rfl, rfl⟩

theorem looseEq_blank (v : Value) :
    looseEq v (text "") = v.hasBlank ∧ looseEq (text "") v = v.hasBlank := by
  cases v with
  | list items => exact ⟨holds_blank _, holds_blank _⟩
  | null => exact equalsSingle_blank null (by simp)
  | bool b => exact equalsSingle_blank (bool b) (by simp)
  | number n => exact equalsSingle_blank (number n) (by simp)
  | text s => exact equalsSingle_blank (text s) (by simp)
  | yearMonth m => exact equalsSingle_blank (yearMonth m) (by simp)

/-- Beside what is not hollow a missing answer and an empty text are equal to the same. -/
theorem looseEq_missing_iff (v : Value) :
    (looseEq null v = looseEq (text "") v ↔ v.isHollow = false) ∧
      (looseEq v null = looseEq v (text "") ↔ v.isHollow = false) := by
  rw [(looseEq_missing v).1, (looseEq_missing v).2, (looseEq_blank v).1, (looseEq_blank v).2]
  exact ⟨isEmpty_eq_hasBlank_iff v, isEmpty_eq_hasBlank_iff v⟩

/-- A value, and the one that stands for it where a missing answer counts as empty text. -/
inductive Fills : Value → Value → Prop
  | same (v : Value) : Fills v v
  | missing : Fills null (text "")

namespace Fills
variable {a b v w : Value}

theorem truthy (fills : Fills v w) : v.truthy = w.truthy := by
  cases fills <;> rfl

/-- An order relation does not look at the order of empty values. -/
theorem ordered (first : Fills a v) (second : Fills b w) (accept : Ordering → Bool) :
    Function.ordered accept a b = Function.ordered accept v w := by
  cases first with
  | missing => rfl
  | same =>
    cases second with
    | missing => simp [Function.ordered, Value.isEmpty]
    | same => rfl

end Fills

end Value

namespace Function

theorem contains_missing_iff (v : Value) :
    contains .null v = contains (.text "") v ↔ v.display ≠ "" := by
  have empty : (Text.cutAtLiteral? v.display.toList []).isSome = v.display.toList.isEmpty := by
    rw [Text.cutAtLiteral?]
    cases v.display.toList <;> rfl
  simp [contains, Value.display, Text.containsLiteral, empty]

/-- What is no list contains a missing answer and the empty text alike. -/
theorem contains_of_missing_iff (v : Value) : contains v .null = contains v (.text "") ↔
    ∀ items, v = .list items → items.any Value.isEmpty = items.any Value.hasBlank := by
  cases v with
  | list items => simp [contains, Value.looseEq_missing, Value.looseEq_blank]
  | null | bool | number | text | yearMonth => simp [contains, Value.display]

end Function

end Questionnaire
