import Questionnaire.Proofs.Decimal.Quantity
import Questionnaire.Proofs.YearMonth.Shift

/-! Machine words in shifts of months and distances between them. Both are written once more over
any way to compute with words: with words that wrap they are what runs, with checked words they
stop at the first number that is no word. -/
namespace Questionnaire

/-- Ways to compute with words of sixty-four bits. No word means that there is no result. -/
structure WordOps where
  neg : Int64 → Option Int64
  add : Int64 → Int64 → Option Int64
  sub : Int64 → Int64 → Option Int64
  mul : Int64 → Int64 → Option Int64

namespace WordOps

/-- The word that stands for a whole number, if one does. -/
def word? (n : Int) : Option Int64 :=
  if -2 ^ 63 ≤ n ∧ n < 2 ^ 63 then some (Int64.ofInt n) else none

/-- What leaves the range comes back in at its other end. -/
def wrapping : WordOps where
  neg a := some (-a)
  add a b := some (a + b)
  sub a b := some (a - b)
  mul a b := some (a * b)

/-- What leaves the range is no result. -/
def checked : WordOps where
  neg a := word? (-a.toInt)
  add a b := word? (a.toInt + b.toInt)
  sub a b := word? (a.toInt - b.toInt)
  mul a b := word? (a.toInt * b.toInt)

theorem toInt_bounds (w : Int64) : -2 ^ 63 ≤ w.toInt ∧ w.toInt < 2 ^ 63 :=
  ⟨Int64.le_toInt w, Int64.toInt_lt w⟩

theorem word?_eq_some_iff {n : Int} {w : Int64} : word? n = some w ↔ w.toInt = n := by
  rw [word?]
  split
  · next fits =>
    have value : (Int64.ofInt n).toInt = n := Int64.toInt_ofInt_of_le fits.1 fits.2
    rw [Option.some.injEq, ← Int64.toInt_inj, value, eq_comm]
  · next outside =>
    have bounds := toInt_bounds w
    refine iff_of_false (by simp) fun same => outside ?_
    rw [← same]
    exact bounds

theorem word?_of_fits {n : Int} (fits : -2 ^ 63 ≤ n ∧ n < 2 ^ 63) :
    ∃ w : Int64, word? n = some w ∧ w.toInt = n :=
  ⟨_, if_pos fits, Int64.toInt_ofInt_of_le fits.1 fits.2⟩

theorem least_iff {n : Int} {w : Int64} (made : word? n = some w) :
    n = -2 ^ 63 ↔ w = Int64.minValue := by
  rw [← Int64.toInt_inj, word?_eq_some_iff.1 made]
  rfl

theorem ofInt_of_word? {n : Int} {w : Int64} (made : word? n = some w) : Int64.ofInt n = w := by
  rw [← word?_eq_some_iff.1 made, Int64.ofInt_toInt]

theorem wrapping_sub {a b w : Int64} (made : checked.sub a b = some w) :
    wrapping.sub a b = some w := by
  have value := ofInt_of_word? made
  rw [Int64.ofInt_sub, Int64.ofInt_toInt, Int64.ofInt_toInt] at value
  exact congrArg some value

theorem wrapping_mul {a b w : Int64} (made : checked.mul a b = some w) :
    wrapping.mul a b = some w := by
  have value := ofInt_of_word? made
  rw [Int64.ofInt_mul, Int64.ofInt_toInt, Int64.ofInt_toInt] at value
  exact congrArg some value

theorem wrapping_add {a b w : Int64} (made : checked.add a b = some w) :
    wrapping.add a b = some w := by
  have value := ofInt_of_word? made
  rw [Int64.ofInt_add, Int64.ofInt_toInt, Int64.ofInt_toInt] at value
  exact congrArg some value

theorem checked_neg (w : Int64) :
    checked.neg w = if w = Int64.minValue then none else some (-w) := by
  split
  · next least =>
    subst least
    decide
  · next other => exact word?_eq_some_iff.2 (YearMonth.toInt_neg other)

end WordOps

theorem Decimal.quantity_ofInt {n : Int} (fits : n.natAbs < coefficientBound) :
    (ofInt n).quantity = n := by
  have magnitude : (ofInt n).coefficient = n.natAbs :=
    Nat.min_eq_left (Nat.le_sub_one_of_lt fits)
  have whole : (ofInt n).signed = n := by
    rw [signed, magnitude, ofInt]
    split
    · next negative =>
      have negative : n < 0 := of_decide_eq_true negative
      omega
    · next natural =>
      have natural : ¬n < 0 := fun negative => natural (decide_eq_true negative)
      omega
  rw [quantity, whole, ofInt, Text.powerOfTen]
  norm_num

theorem Decimal.toInt64?_eq (d : Decimal) : d.toInt64? = WordOps.word? d.truncated := by
  have limit : (Text.largestInt64 : Int) = 2 ^ 63 - 1 := rfl
  rw [toInt64?, WordOps.word?, limit]
  congr 1
  rw [eq_iff_iff]
  omega

namespace YearMonth
variable {a b c : YearMonth}

/-- The shift of a month with its one operation on words left open. -/
def addMonthsBy (ops : WordOps) (m : YearMonth) (months : Int64) : Option (Option YearMonth) :=
  if 0 ≤ months then some ((monthCount? months).bind m.later?)
  else (ops.neg months).map fun turned => (monthCount? turned).bind m.earlier?

/-- The months from `a` to `b`, counted in words: the years between them by twelve, and the
months within the year. -/
def monthsUntilBy (ops : WordOps) (a b : YearMonth) : Option Int64 := do
  let years ← ops.sub (Int64.ofInt b.year) (Int64.ofInt a.year)
  let whole ← ops.mul years 12
  let rest ← ops.sub (Int64.ofInt b.month) (Int64.ofInt a.month)
  ops.add whole rest

theorem addMonthsBy_wrapping (m : YearMonth) (n : Int64) :
    m.addMonthsBy .wrapping n = some (m.addMonths? n) := by
  rw [addMonthsBy, addMonths?]
  split
  · rfl
  · rfl

theorem addMonthsBy_checked (m : YearMonth) (n : Int64) :
    m.addMonthsBy .checked n = if n = Int64.minValue then none else some (m.addMonths? n) := by
  rw [addMonthsBy, addMonths?]
  split
  · next forward =>
    have other : n ≠ Int64.minValue := by
      rintro rfl
      exact absurd forward (by decide)
    rw [if_neg other]
  · rw [WordOps.checked_neg]
    split
    · rfl
    · rfl

/-- No difference, product or sum on the way to a distance leaves the range of a word. -/
theorem monthsUntilBy_checked (a b : YearMonth) :
    monthsUntilBy .checked a b = some (Int64.ofInt (a.monthsUntil b)) := by
  have year := a.year_range
  have year' := b.year_range
  have month := a.month_range
  have month' := b.month_range
  simp only [earliestYear, latestYear] at year year'
  have asWord (n : Int) (small : -300000 ≤ n ∧ n ≤ 300000) : (Int64.ofInt n).toInt = n :=
    Int64.toInt_ofInt_of_le (by omega) (by omega)
  have twelve : (12 : Int64).toInt = 12 := by decide
  obtain ⟨years, made, value⟩ :=
    WordOps.word?_of_fits (n := b.year - a.year) (by omega)
  obtain ⟨whole, made', value'⟩ :=
    WordOps.word?_of_fits (n := (b.year - a.year) * 12) (by omega)
  obtain ⟨rest, made'', value''⟩ :=
    WordOps.word?_of_fits (n := (b.month : Int) - a.month) (by omega)
  simp only [monthsUntilBy, WordOps.checked, Option.bind_eq_bind]
  rw [asWord b.year (by omega), asWord a.year (by omega), made, Option.bind_some, value, twelve,
    made', Option.bind_some, asWord b.month (by omega), asWord a.month (by omega), made'',
    Option.bind_some, value', value'', ← monthsUntil]
  exact WordOps.word?_eq_some_iff.2 (toInt_monthsUntil a b)

theorem monthsUntilBy_wrapping (a b : YearMonth) :
    monthsUntilBy .wrapping a b = some (Int64.ofInt (a.monthsUntil b)) := by
  have made := monthsUntilBy_checked a b
  simp only [monthsUntilBy, Option.bind_eq_bind, Option.bind_eq_some_iff] at made
  obtain ⟨years, first, whole, second, rest, third, sum⟩ := made
  simp only [monthsUntilBy, Option.bind_eq_bind, WordOps.wrapping_sub first,
    WordOps.wrapping_mul second, WordOps.wrapping_sub third, WordOps.wrapping_add sum,
    Option.bind_some]

/-- The distance between two months fits a decimal as it is. -/
theorem quantity_monthsUntil (a b : YearMonth) :
    (Decimal.ofInt (a.monthsUntil b)).quantity = a.monthsUntil b := by
  have bounds := a.index_bounds
  have bounds' := b.index_bounds
  refine Decimal.quantity_ofInt ?_
  rw [monthsUntil_eq, Decimal.coefficientBound]
  omega

theorem away_monthsUntil (a b : YearMonth) : Away (a.monthsUntil b) a b := by
  rw [away_iff, monthsUntil_eq]
  omega

theorem Away.monthsUntil {n : Int} (away : Away n a c) : a.monthsUntil c = n := by
  rw [away_iff] at away
  rw [monthsUntil_eq]
  omega

/-- The calendar is far shorter than the range of a word. -/
theorem Away.near {n : Int} (away : Away n a c) : -2 ^ 63 < n ∧ n < 2 ^ 63 := by
  have bounds := a.index_bounds
  have bounds' := c.index_bounds
  rw [away_iff] at away
  omega

end YearMonth

end Questionnaire
