import Questionnaire.Proofs.Value.Missing
import Questionnaire.Proofs.YearMonth.Shift
import Questionnaire.Proofs.YearMonth.Written
import Questionnaire.Value.Arithmetic

/-! Equality and order of values. Equality does not look at the sides and holds of a value and
itself, the order turns around with its sides. Of two values that are no lists, one is less, or
both are equal, or the other is less: equality and order read months, quantities and texts
alike, for a month is told from what does not name it by its text too. -/
namespace Questionnaire

theorem YearMonth.compare_swap (a b : YearMonth) : (a.compare b).swap = b.compare a := by
  rw [compare, compare, Ordering.swap_then, ← Std.OrientedCmp.eq_swap, ← Std.OrientedCmp.eq_swap]

theorem YearMonth.compare_eq_eq_iff {a b : YearMonth} : a.compare b = .eq ↔ a = b := by
  rw [compare, Ordering.then_eq_eq, Std.compare_eq_iff_eq, Std.compare_eq_iff_eq]
  constructor
  · rintro ⟨year, month⟩
    exact index_injective (by rw [index, index, year, month])
  · rintro rfl
    exact ⟨rfl, rfl⟩

/-- A hyphen in a numeral is its sign. -/
theorem Decimal.text_hyphen (d : Decimal) (hyphen : '-' ∈ d.text.toList) :
    d.text.toList.head? = some '-' := by
  simp only [Decimal.text, String.toList_ofList] at hyphen ⊢
  by_cases sign : d.negative = true
  · simp [sign]
  · have digits : ∀ c ∈ List.replicate (d.scale + 1 - (Nat.toDigits 10 d.coefficient).length) '0' ++
        Nat.toDigits 10 d.coefficient, c ≠ '-' := by
      refine List.forall_mem_append.2 ⟨fun c zero => ?_, fun c digit => ?_⟩
      · rw [List.eq_of_mem_replicate zero]
        decide
      · exact YearMonth.ne_hyphen_of_isDigit
          (Nat.isDigit_of_mem_toDigits (by decide) (by decide) digit)
    rw [if_neg sign, List.nil_append] at hyphen
    rcases List.mem_append.1 hyphen with whole | fraction
    · exact absurd rfl (digits _ (List.mem_of_mem_take whole))
    · split at fraction
      · cases fraction
      · rcases List.mem_cons.1 fraction with point | digit
        · exact absurd point (by decide)
        · exact absurd rfl (digits _ (List.mem_of_mem_drop digit))

/-- The text of a month has a hyphen behind its year. -/
theorem YearMonth.text_hyphen {m : YearMonth} (common : 0 ≤ m.year) :
    '-' ∈ m.text.toList ∧ m.text.toList.head? ≠ some '-' := by
  have digits := Text.isDigit_padZeros 4 m.year.natAbs
  rw [text_toList common]
  refine ⟨by simp, ?_⟩
  cases year : (Text.padZeros 4 (toString m.year.natAbs)).toList with
  | nil => exact absurd year (Text.padZeros_ne_nil 4 _)
  | cons c cs =>
    have digit := digits c (year ▸ List.mem_cons_self)
    simpa using ne_hyphen_of_isDigit digit

namespace Value

/-- The order of two values by quantity if both are numbers, else by text. -/
def byQuantity (a b : Value) : Ordering :=
  match a.asNumber?, b.asNumber? with
  | some x, some y => x.compare y
  | _, _ => compareOfLessAndEq a.display b.display

/-- The order of two values by month, if both name one. -/
def byMonth? (a b : Value) : Option Ordering :=
  a.asYearMonth?.bind fun x => b.asYearMonth?.map x.compare

def isMonth (v : Value) : Bool := v matches yearMonth _

/-- Given, and neither a list nor a month. -/
def isPlain : Value → Bool
  | bool _ | number _ | text _ => true
  | null | list _ | yearMonth _ => false

/-- No list, and no month of a year before zero. -/
def IsComparable : Value → Prop
  | list _ => False
  | yearMonth m => 0 ≤ m.year
  | null | bool _ | number _ | text _ => True

/-! Quantity and text -/

theorem compareText_swap (s t : String) :
    (compareOfLessAndEq s t).swap = compareOfLessAndEq t s :=
  (compareOfLessAndEq_eq_swap String.le_antisymm String.le_total String.not_le).symm

theorem compareText_eq_iff {s t : String} : compareOfLessAndEq s t = .eq ↔ s = t :=
  compareOfLessAndEq_eq_eq String.le_refl String.not_le

theorem byQuantity_swap (a b : Value) : (byQuantity a b).swap = byQuantity b a := by
  unfold byQuantity
  cases a.asNumber? with
  | none => cases b.asNumber? <;> exact compareText_swap _ _
  | some x =>
    cases b.asNumber? with
    | none => exact compareText_swap _ _
    | some y => exact x.compare_swap y

theorem byQuantity_unnumbered {a b : Value} (word : a.asNumber? = none) :
    byQuantity a b = compareOfLessAndEq a.display b.display := by
  rw [byQuantity, word]

theorem equalsQuantity_eq (a b : Value) :
    (match a.asNumber?, b.asNumber? with
      | some x, some y => x.sameQuantity y
      | _, _ => a.display == b.display) = (byQuantity a b == .eq) := by
  have texts : (a.display == b.display) = (compareOfLessAndEq a.display b.display == .eq) := by
    rw [Bool.eq_iff_iff, beq_iff_eq, beq_iff_eq, compareText_eq_iff]
  unfold byQuantity
  cases a.asNumber? with
  | none => cases b.asNumber? <;> exact texts
  | some x =>
    cases b.asNumber? with
    | none => exact texts
    | some y => rfl

/-! Both sides turned around -/

theorem byMonth?_swap (a b : Value) : (byMonth? a b).map Ordering.swap = byMonth? b a := by
  unfold byMonth?
  cases a.asYearMonth? with
  | none => cases b.asYearMonth? <;> rfl
  | some x =>
    cases b.asYearMonth? with
    | none => rfl
    | some y => exact congrArg some (x.compare_swap y)

theorem looseCmp_eq (a b : Value) : a.looseCmp b =
    if a.isMonth || b.isMonth then (byMonth? a b).getD (byQuantity a b) else byQuantity a b := by
  unfold looseCmp byMonth? isMonth
  cases a.asYearMonth? with
  | none => rfl
  | some x => cases b.asYearMonth? <;> rfl

theorem looseCmp_swap (a b : Value) : (a.looseCmp b).swap = b.looseCmp a := by
  rw [looseCmp_eq, looseCmp_eq, Bool.or_comm, ← byMonth?_swap a b, ← byQuantity_swap a b]
  split
  · cases byMonth? a b <;> rfl
  · rfl

/-- A value that names no month is compared by quantity or text. -/
theorem looseCmp_unnamed {a b : Value} (other : a.asYearMonth? = none ∨ b.asYearMonth? = none) :
    a.looseCmp b = byQuantity a b := by
  have apart : byMonth? a b = none := by
    unfold byMonth?
    rcases other with first | second
    · rw [first, Option.bind_none]
    · rw [second]
      cases a.asYearMonth? <;> rfl
  rw [looseCmp_eq, apart, Option.getD_none, ite_self]

theorem looseCmp_month {m y : YearMonth} {v : Value} (names : v.asYearMonth? = some y) :
    (yearMonth m).looseCmp v = m.compare y := by
  rw [looseCmp_eq, byMonth?, names]
  rfl

/-- Values that are given and neither lists nor months are told apart by quantity and text. -/
theorem looseEq_plain {a b : Value} (plain : a.isPlain = true) (plain' : b.isPlain = true) :
    a.looseEq b = (byQuantity a b == .eq) := by
  have single : a.looseEq b = equalsSingle a b := by
    cases a <;> cases plain <;> cases b <;> cases plain' <;> rfl
  rw [single]
  unfold equalsSingle
  split
  · cases plain
  · cases plain'
  · next x y => cases x <;> cases y <;> decide
  · cases plain
  · cases plain'
  · exact equalsQuantity_eq a b

theorem looseEq_month {m : YearMonth} {v : Value} (given : v ≠ null)
    (single : ∀ items, v ≠ list items) :
    (yearMonth m).looseEq v = (v.asYearMonth? == some m) := by
  cases v with
  | null => exact absurd rfl given
  | list items => exact absurd rfl (single items)
  | bool | number | text | yearMonth => rfl

theorem looseEq_comm (a b : Value) : a.looseEq b = b.looseEq a := by
  have plain (first : a.isPlain = true) (second : b.isPlain = true) :
      a.looseEq b = b.looseEq a := by
    rw [looseEq_plain first second, looseEq_plain second first, ← byQuantity_swap a b]
    cases byQuantity a b <;> rfl
  cases a with
  | null => rw [(looseEq_missing b).1, (looseEq_missing b).2]
  | list xs =>
    cases b with
    | list ys => exact Bool.beq_comm
    | null | bool | number | text | yearMonth => rfl
  | yearMonth x =>
    cases b with
    | yearMonth y => exact Bool.beq_comm
    | null | bool | number | text | list => rfl
  | bool | number | text =>
    cases b with
    | null | list | yearMonth => rfl
    | bool | number | text => exact plain rfl rfl

theorem byQuantity_self (v : Value) : byQuantity v v = .eq := by
  have same := byQuantity_swap v v
  cases order : byQuantity v v with
  | eq => rfl
  | lt | gt => rw [order] at same; cases same

theorem looseEq_self (v : Value) : v.looseEq v = true := by
  have plain (given : v.isPlain = true) : v.looseEq v = true := by
    rw [looseEq_plain given given, byQuantity_self]
    rfl
  cases v with
  | null => rfl
  | bool | number | text => exact plain rfl
  | list items => exact beq_self_eq_true _
  | yearMonth m => exact beq_self_eq_true _

/-! Equality and order side by side -/

theorem isEmpty_iff_display {v : Value} (comparable : v.IsComparable) :
    v.isEmpty = true ↔ v.display = "" := by
  cases v with
  | null => exact iff_of_true rfl rfl
  | bool b => cases b <;> exact iff_of_false nofun (by decide)
  | number n => exact iff_of_false nofun n.normalize.text_ne_empty
  | text s => exact String.isEmpty_iff
  | list items => exact comparable.elim
  | yearMonth m =>
    refine iff_of_false nofun fun empty => ?_
    have hyphen := (YearMonth.text_hyphen comparable).1
    rw [show m.text = "" from empty] at hyphen
    cases hyphen

/-- What does not name a month has another text than any month. -/
theorem display_ne_month {m : YearMonth} (common : 0 ≤ m.year) {v : Value}
    (comparable : v.IsComparable) (other : v.asYearMonth? = none) : m.text ≠ v.display := by
  obtain ⟨hyphen, digit⟩ := YearMonth.text_hyphen common
  intro same
  cases v with
  | null => rw [same] at hyphen; cases hyphen
  | bool b =>
    rw [same] at hyphen
    cases b <;> exact absurd hyphen (by decide)
  | number n =>
    rw [same] at hyphen digit
    exact digit (n.normalize.text_hyphen hyphen)
  | text s =>
    obtain rfl : m.text = s := same
    cases (YearMonth.read?_text common).symm.trans other
  | list items => exact comparable.elim
  | yearMonth m' => cases other

/-- Whether equality and order agree does not depend on the sides. -/
theorem coincide_swap {a b : Value} (agree : a.looseEq b = (a.looseCmp b == .eq)) :
    b.looseEq a = (b.looseCmp a == .eq) := by
  rw [looseEq_comm, agree, ← looseCmp_swap a b]
  cases a.looseCmp b <;> rfl

theorem coincide_missing {v : Value} (comparable : v.IsComparable) :
    null.looseEq v = (null.looseCmp v == .eq) := by
  have order : null.looseCmp v = compareOfLessAndEq "" v.display := by
    rw [looseCmp_unnamed (.inl rfl)]
    exact byQuantity_unnumbered rfl
  rw [(looseEq_missing v).2, order, Bool.eq_iff_iff, beq_iff_eq, compareText_eq_iff,
    isEmpty_iff_display comparable]
  exact eq_comm

theorem coincide_month {m : YearMonth} (common : 0 ≤ m.year) {v : Value}
    (comparable : v.IsComparable) (given : v ≠ null) :
    (yearMonth m).looseEq v = ((yearMonth m).looseCmp v == .eq) := by
  have single (items : List Value) : v ≠ list items := by
    rintro rfl
    exact comparable
  rw [looseEq_month given single, Bool.eq_iff_iff, beq_iff_eq, beq_iff_eq]
  cases names : v.asYearMonth? with
  | none =>
    rw [looseCmp_unnamed (.inr names), byQuantity_unnumbered rfl, compareText_eq_iff]
    exact iff_of_false nofun (display_ne_month common comparable names)
  | some y =>
    rw [looseCmp_month names, YearMonth.compare_eq_eq_iff, Option.some.injEq]
    exact eq_comm

theorem looseEq_eq_looseCmp {a b : Value} (comparable : a.IsComparable)
    (comparable' : b.IsComparable) : a.looseEq b = (a.looseCmp b == .eq) := by
  have plain (first : a.isPlain = true) (second : b.isPlain = true)
      (other : (a.isMonth || b.isMonth) = false) : a.looseEq b = (a.looseCmp b == .eq) := by
    rw [looseEq_plain first second, looseCmp_eq, if_neg (ne_true_of_eq_false other)]
  cases a with
  | null => exact coincide_missing comparable'
  | list xs => exact comparable.elim
  | yearMonth x =>
    cases b with
    | null => exact coincide_swap (coincide_missing comparable)
    | list ys => exact comparable'.elim
    | bool | number | text | yearMonth => exact coincide_month comparable comparable' nofun
  | bool | number | text =>
    cases b with
    | null => exact coincide_swap (coincide_missing comparable)
    | list ys => exact comparable'.elim
    | yearMonth y => exact coincide_swap (coincide_month comparable' comparable nofun)
    | bool | number | text => exact plain rfl rfl rfl

/-- Equality holds both ways and of a value and itself, the order turns around with its sides.
Of two values that are no lists, nor months before year zero, exactly one of less, equal and
greater holds, and the operators that allow equality are made up of these. -/
theorem comparison_coherent :
    (∀ a b : Value, a.looseEq b = b.looseEq a) ∧ (∀ a : Value, a.looseEq a = true) ∧
    (∀ a b : Value, a.looseCmp b = (b.looseCmp a).swap) ∧
    ∀ a b : Value, a.IsComparable → b.IsComparable → ∃ less same greater : Bool,
      a.compare .less b = .ok less ∧ a.compare .equal b = .ok same ∧
      a.compare .greater b = .ok greater ∧ [less, same, greater].count true = 1 ∧
      a.compare .lessOrEqual b = .ok (less || same) ∧
      a.compare .greaterOrEqual b = .ok (greater || same) := by
  refine ⟨looseEq_comm, looseEq_self, fun a b => (looseCmp_swap b a).symm, ?_⟩
  intro a b comparable comparable'
  have agree := looseEq_eq_looseCmp comparable comparable'
  refine ⟨a.looseCmp b == .lt, a.looseEq b, a.looseCmp b == .gt, rfl, rfl, rfl, ?_⟩
  simp only [compare]
  rw [agree]
  cases a.looseCmp b <;> exact ⟨rfl, rfl, rfl⟩

/-- A month beside a day of it that was written down. -/
theorem comparison_coherent_may :
    let may : Value := yearMonth ⟨2024, 5, by decide, by decide⟩
    let day : Value := text "2024-05-31"
    may.IsComparable ∧ day.IsComparable ∧ may.compare .equal day = .ok true ∧
      may.compare .less day = .ok false ∧ may.compare .lessOrEqual day = .ok true := by
  intro may day
  have comparable : may.IsComparable := Int.natCast_nonneg 2024
  obtain ⟨less, same, greater, isLess, isSame, -, one, orLess, -⟩ :=
    comparison_coherent.2.2.2 may day comparable trivial
  have read : may.looseEq day = true := by decide +kernel
  have equal : may.compare .equal day = .ok true := congrArg Except.ok read
  obtain rfl : same = true := Except.ok.inj (isSame.symm.trans equal)
  cases less
  · exact ⟨comparable, trivial, equal, isLess, orLess⟩
  · cases greater <;> cases one

end Value

end Questionnaire
