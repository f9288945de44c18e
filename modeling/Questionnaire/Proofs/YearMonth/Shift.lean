import Questionnaire.YearMonth

/-! Shifts of months and the distances between them. The calendar is counted month by month:
a shift arrives where the counting does, fails exactly if the year runs out of range, and the
distance to where it arrives is the shift. -/
namespace Questionnaire.YearMonth
variable {a b c : YearMonth}

/-- `b` is the month right behind `a`. -/
def Follows (a b : YearMonth) : Prop :=
  (a.month < 12 ∧ b.year = a.year ∧ b.month = a.month + 1) ∨
    (a.month = 12 ∧ b.year = a.year + 1 ∧ b.month = 1)

/-- So many months later, counted one by one. -/
inductive LaterBy : Nat → YearMonth → YearMonth → Prop
  | same (a : YearMonth) : LaterBy 0 a a
  | next {n : Nat} {a b c : YearMonth} (counted : LaterBy n a b) (follows : Follows b c) :
      LaterBy (n + 1) a c

/-- So many months away: later, or earlier for a negative number. -/
def Away (n : Int) (a c : YearMonth) : Prop :=
  if 0 ≤ n then LaterBy n.toNat a c else LaterBy (-n).toNat c a

/-- The year that so many months lead to, in range or not. -/
def yearAfter (m : YearMonth) (n : Int) : Int := m.year + (m.month - 1 + n) / 12

/-! Places in the sequence of months -/

theorem index_injective (same : a.index = b.index) : a = b := by
  have found := ofIndex?_index a
  rw [same, ofIndex?_index] at found
  exact (Option.some.inj found).symm

theorem ofIndex?_eq_some_iff {place : Int} : ofIndex? place = some a ↔ a.index = place :=
  ⟨index_ofIndex?, fun same => same ▸ ofIndex?_index a⟩

theorem isSome_ofIndex?_iff {place : Int} :
    (ofIndex? place).isSome ↔ earliestYear ≤ place / 12 ∧ place / 12 ≤ latestYear := by
  have month : 1 ≤ (place % 12).toNat + 1 ∧ (place % 12).toNat + 1 ≤ 12 := by omega
  simp [ofIndex?, of?, month]

theorem index_div (m : YearMonth) : m.index / 12 = m.year := by
  have month := m.month_range
  rw [index]
  omega

/-- There is a month at every place between two months. -/
theorem exists_between {place : Int} (lower : a.index ≤ place) (upper : place ≤ b.index) :
    ∃ m : YearMonth, m.index = place := by
  have least := a.year_range.1
  have most := b.year_range.2
  rw [← index_div] at least most
  have found : (ofIndex? place).isSome := isSome_ofIndex?_iff.2 (by omega)
  obtain ⟨m, found⟩ := Option.isSome_iff_exists.1 found
  exact ⟨m, index_ofIndex? found⟩

theorem follows_iff : Follows a b ↔ b.index = a.index + 1 := by
  have month := a.month_range
  have month' := b.month_range
  simp only [Follows, index]
  omega

theorem laterBy_iff {n : Nat} : LaterBy n a c ↔ c.index = a.index + n := by
  induction n generalizing c with
  | zero =>
    refine ⟨?_, fun same => ?_⟩
    · rintro ⟨⟩
      simp
    · obtain rfl : c = a := index_injective (by simpa using same)
      exact .same c
  | succ n ih =>
    refine ⟨?_, fun counted => ?_⟩
    · rintro (_ | ⟨counted, follows⟩)
      rw [follows_iff.1 follows, ih.1 counted]
      omega
    · obtain ⟨b, place⟩ : ∃ b : YearMonth, b.index = a.index + n :=
        exists_between (a := a) (b := c) (by omega) (by omega)
      exact .next (ih.2 place) (follows_iff.2 (by omega))

theorem away_iff {n : Int} : Away n a c ↔ c.index = a.index + n := by
  unfold Away
  split
  · rw [laterBy_iff]
    omega
  · rw [laterBy_iff]
    omega

/-! Shifts -/

/-- Only the least word has no counterpart with the other sign. -/
theorem toInt_neg {n : Int64} (other : n ≠ Int64.minValue) : (-n).toInt = -n.toInt := by
  have lower := Int64.le_toInt n
  have upper := Int64.toInt_lt n
  have notLeast : n.toInt ≠ Int64.minValue.toInt := fun same => other (Int64.toInt_inj.1 same)
  rw [Int64.toInt_minValue] at notLeast
  rw [Int64.toInt_neg, Int.bmod_def]
  omega

/-- The calendar's months on either side of year zero are far fewer than a word counts. -/
theorem index_bounds (m : YearMonth) : -3145716 ≤ m.index ∧ m.index < 3145716 := by
  have year := m.year_range
  have month := m.month_range
  simp only [earliestYear, latestYear] at year
  rw [index]
  omega

theorem ofIndex?_far {place : Int} (far : place < -3145716 ∨ 3145716 ≤ place) :
    ofIndex? place = none := by
  rw [Option.eq_none_iff_forall_ne_some]
  intro m found
  have bounds := m.index_bounds
  rw [index_ofIndex? found] at bounds
  omega

theorem monthCount?_eq_some {n : Int64} (positive : 0 ≤ n.toInt)
    (small : n.toInt ≤ Text.largestUInt32) : monthCount? n = some n.toInt.toNat :=
  if_pos ⟨positive, small⟩

theorem monthCount?_eq_none {n : Int64} (outside : n.toInt < 0 ∨ Text.largestUInt32 < n.toInt) :
    monthCount? n = none :=
  if_neg (by omega)

/-- Neither the turned sign nor the narrower count of months shows: what they lose is out of
the calendar's range. -/
theorem addMonths?_eq (m : YearMonth) (n : Int64) :
    m.addMonths? n = ofIndex? (m.index + n.toInt) := by
  have bounds := m.index_bounds
  have word : (Text.largestUInt32 : Int) = 4294967295 := rfl
  rw [addMonths?]
  split
  · next forward =>
    have forward : 0 ≤ n.toInt := Int64.le_iff_toInt_le.1 forward
    by_cases small : n.toInt ≤ Text.largestUInt32
    · rw [monthCount?_eq_some forward small, Option.bind_some, later?, Int.toNat_of_nonneg forward]
    · rw [monthCount?_eq_none (.inr (by omega)), Option.bind_none, ofIndex?_far (by omega)]
  · next backward =>
    have backward : n.toInt < 0 := by
      rw [Int64.le_iff_toInt_le] at backward
      exact Int.not_le.1 backward
    by_cases least : n = Int64.minValue
    · have value := Int64.toInt_minValue
      subst least
      rw [monthCount?_eq_none (.inl (by decide)), Option.bind_none, ofIndex?_far (by omega)]
    · have turned := toInt_neg least
      by_cases small : (-n).toInt ≤ Text.largestUInt32
      · rw [monthCount?_eq_some (by omega) small, Option.bind_some, earlier?,
          Int.toNat_of_nonneg (by omega), turned, Int.sub_neg]
      · rw [monthCount?_eq_none (.inr (by omega)), Option.bind_none, ofIndex?_far (by omega)]

theorem addMonths?_eq_some_iff {n : Int64} :
    a.addMonths? n = some c ↔ c.index = a.index + n.toInt := by
  rw [addMonths?_eq, ofIndex?_eq_some_iff]

theorem addMonths?_eq_some_iff_away {n : Int64} :
    a.addMonths? n = some c ↔ Away n.toInt a c :=
  addMonths?_eq_some_iff.trans away_iff.symm

theorem yearAfter_eq (m : YearMonth) (n : Int) : m.yearAfter n = (m.index + n) / 12 := by
  rw [yearAfter, index]
  omega

theorem isSome_addMonths?_iff {n : Int64} : (a.addMonths? n).isSome ↔
    earliestYear ≤ a.yearAfter n.toInt ∧ a.yearAfter n.toInt ≤ latestYear := by
  rw [addMonths?_eq, isSome_ofIndex?_iff, yearAfter_eq]

/-- Shifts in a row arrive where the sum of their months does. -/
theorem addMonths?_addMonths? {m n : Int64} (arrives : a.addMonths? m = some b) :
    b.addMonths? n = some c ↔ Away (m.toInt + n.toInt) a c := by
  rw [addMonths?_eq_some_iff, away_iff, addMonths?_eq_some_iff.1 arrives, Int.add_assoc]

theorem addMonths?_sum {m n sum : Int64} (total : sum.toInt = m.toInt + n.toInt)
    (arrives : a.addMonths? m = some b) : b.addMonths? n = a.addMonths? sum := by
  rw [addMonths?_eq, addMonths?_eq, addMonths?_eq_some_iff.1 arrives, total, Int.add_assoc]

/-! Distances and order -/

theorem monthsUntil_eq (a b : YearMonth) : a.monthsUntil b = b.index - a.index := by
  rw [monthsUntil, index, index]
  omega

theorem monthsUntil_swap (a b : YearMonth) : a.monthsUntil b = -(b.monthsUntil a) := by
  rw [monthsUntil_eq, monthsUntil_eq]
  omega

theorem monthsUntil_of_addMonths? {n : Int64} (arrives : a.addMonths? n = some c) :
    a.monthsUntil c = n.toInt := by
  rw [monthsUntil_eq, addMonths?_eq_some_iff.1 arrives]
  omega

/-- Every distance is a shift of sixty-four bits. -/
theorem toInt_monthsUntil (a b : YearMonth) :
    (Int64.ofInt (a.monthsUntil b)).toInt = a.monthsUntil b := by
  have bounds := a.index_bounds
  have bounds' := b.index_bounds
  rw [monthsUntil_eq]
  exact Int64.toInt_ofInt_of_le (by omega) (by omega)

theorem addMonths?_monthsUntil (a b : YearMonth) :
    a.addMonths? (Int64.ofInt (a.monthsUntil b)) = some b := by
  rw [addMonths?_eq_some_iff, toInt_monthsUntil, monthsUntil_eq]
  omega

/-- The order by year and month is the one of the sequence. -/
theorem compare_eq_lt_iff : a.compare b = .lt ↔ a.index < b.index := by
  have month := a.month_range
  have month' := b.month_range
  rw [compare, Ordering.then_eq_lt, Std.compare_eq_lt, Std.compare_eq_lt, Std.compare_eq_iff_eq,
    index, index]
  omega

theorem compare_eq_lt_iff_monthsUntil : a.compare b = .lt ↔ 0 < a.monthsUntil b := by
  rw [compare_eq_lt_iff, monthsUntil_eq]
  omega

/-- A shift is exact: it arrives at the month so many months away and fails only if that lies
out of range, and the distance gives it back. Shifts in a row add up. The sign of a distance
is that of the order. -/
theorem shifts_exact (a b : YearMonth) (m n : Int64) :
    (∀ c, a.addMonths? n = some c ↔ Away n.toInt a c) ∧
    ((a.addMonths? n).isSome ↔
      earliestYear ≤ a.yearAfter n.toInt ∧ a.yearAfter n.toInt ≤ latestYear) ∧
    (∀ c, a.addMonths? n = some c → a.monthsUntil c = n.toInt) ∧
    a.addMonths? (Int64.ofInt (a.monthsUntil b)) = some b ∧
    (a.addMonths? m = some b →
      (∀ c, b.addMonths? n = some c ↔ Away (m.toInt + n.toInt) a c) ∧
      ∀ sum : Int64, sum.toInt = m.toInt + n.toInt → b.addMonths? n = a.addMonths? sum) ∧
    a.monthsUntil b = -(b.monthsUntil a) ∧
    (a.compare b = .lt ↔ 0 < a.monthsUntil b) :=
  ⟨fun _ => addMonths?_eq_some_iff_away, isSome_addMonths?_iff,
    fun _ arrives => monthsUntil_of_addMonths? arrives, addMonths?_monthsUntil a b,
    fun arrives => ⟨fun _ => addMonths?_addMonths? arrives,
      fun _ total => addMonths?_sum total arrives⟩,
    monthsUntil_swap a b, compare_eq_lt_iff_monthsUntil⟩

/-- From the last month of the year before zero one month on and fourteen back. -/
theorem shifts_exact_zero :
    let last : YearMonth := ⟨-1, 12, by decide, by decide⟩
    let zero : YearMonth := ⟨0, 1, by decide, by decide⟩
    let back : YearMonth := ⟨-2, 11, by decide, by decide⟩
    last.addMonths? 1 = some zero ∧ zero.addMonths? (-14) = some back ∧
      zero.monthsUntil back = -14 ∧ Away (-13) last back ∧ last.addMonths? (-13) = some back := by
  intro last zero back
  have first : last.addMonths? 1 = some zero := by decide
  have second : zero.addMonths? (-14) = some back := by decide
  obtain ⟨-, -, -, -, sums, -⟩ := shifts_exact last zero 1 (-14)
  obtain ⟨-, -, distance, -⟩ := shifts_exact zero last 1 (-14)
  obtain ⟨away, same⟩ := sums first
  exact ⟨first, second, distance back second, (away back).1 second,
    (same (-13) (by decide)).symm.trans second⟩

end Questionnaire.YearMonth
