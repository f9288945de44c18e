import Questionnaire.Expr.Function
import Questionnaire.Proofs.YearMonth.Words

/-! Arithmetic with months by machine words. The operators and functions that shift a month or
count the months between two of them are written once more over any way to compute with words.
With checked words and with words that wrap they agree unless the number of months is the least
word, whose sign cannot be turned, and what runs is exact even there. -/
namespace Questionnaire

namespace Value
variable {left right other v : Value} {op : InfixOp} {m : YearMonth} {d : Decimal}

/-! The operators over any way to compute with words -/

def shiftMonthsBy (ops : WordOps) (start : YearMonth) (months : Int64) :
    Option (Except EvalError Value) :=
  (start.addMonthsBy ops months).map fun
    | some m => .ok (.yearMonth m)
    | none => .error (.shiftOutOfRange start months)

/-- A month shifted by a value, whose number `turn` may put the other sign in front of. -/
def shiftByValue (ops : WordOps) (turn : Int64 → Option Int64) (m : YearMonth) (other : Value) :
    Option (Except EvalError Value) :=
  match other.wholeMonths with
  | .ok n => (turn n).bind (shiftMonthsBy ops m)
  | .error e => some (.error e)

/-- Operators of which at least one side is a month. -/
def monthArithmeticBy (ops : WordOps) (left : Value) (op : InfixOp) (right : Value) :
    Option (Except EvalError Value) :=
  match left, op, right with
  | yearMonth m, .add, other =>
    if other.asNumber?.isSome then shiftByValue ops some m other
    else some (.error (.undefinedFor op left right))
  | other, .add, yearMonth m =>
    if other.asNumber?.isSome then shiftByValue ops some m other
    else some (.error (.undefinedFor op left right))
  | _, .subtract, _ =>
    match left, right.asNumber? with
    | yearMonth m, some _ => shiftByValue ops ops.neg m right
    | _, _ =>
      match left.asYearMonth?, right.asYearMonth? with
      | some l, some r =>
        (r.monthsUntilBy ops l).map fun w => .ok (.number (Decimal.ofInt w.toInt))
      | _, _ => some (.error (.cannotSubtract right left))
  | _, _, _ => some (.error (.undefinedFor op left right))

/-! What there is to shift and to count -/

/-- The operator shifts the month `m` by the value `other`, which stands for the number `d`. -/
inductive Shifts (m : YearMonth) (other : Value) (d : Decimal) : Value → InfixOp → Value → Prop
  | onward (number : other.asNumber? = some d) : Shifts m other d (yearMonth m) .add other
  | swapped (number : other.asNumber? = some d) : Shifts m other d other .add (yearMonth m)
  | back (number : other.asNumber? = some d) : Shifts m other d (yearMonth m) .subtract other

/-- The operator counts the months from the month of the right side to that of the left. -/
structure Counts (l r : YearMonth) (left : Value) (op : InfixOp) (right : Value) : Prop where
  minus : op = .subtract
  first : left.asYearMonth? = some l
  second : right.asYearMonth? = some r
  noShift : ∀ m other d, ¬Shifts m other d left op right

/-- The number of months an operator shifts by, for a value that stands for `n`. -/
def shiftCount (op : InfixOp) (n : Int) : Int :=
  match op with
  | .subtract => -n
  | _ => n

/-- The exact results of the operators on months. -/
inductive Dated (left : Value) (op : InfixOp) (right : Value) : Value → Prop
  | shifted {m c : YearMonth} {other : Value} {d : Decimal}
      (shifts : Shifts m other d left op right)
      (away : YearMonth.Away (shiftCount op d.truncated) m c) : Dated left op right (yearMonth c)
  | counted {l r : YearMonth} {n : Int} (counts : Counts l r left op right)
      (away : YearMonth.Away n r l) : Dated left op right (number (Decimal.ofInt n))

/-! The operators on words -/

/-- The sign of the word that an operator shifts by. -/
def turn (ops : WordOps) : InfixOp → Int64 → Option Int64
  | .subtract => ops.neg
  | _ => some

def turned : InfixOp → Int64 → Int64
  | .subtract, w => -w
  | _, w => w

theorem turn_wrapping (op : InfixOp) (w : Int64) : turn .wrapping op w = some (turned op w) := by
  cases op with
  | subtract => rfl
  | _ => rfl

theorem shiftMonthsBy_wrapping (m : YearMonth) (w : Int64) :
    shiftMonthsBy .wrapping m w = some (shiftMonths m w) := by
  cases shifted : m.addMonths? w with
  | none => simp [shiftMonthsBy, shiftMonths, YearMonth.addMonthsBy_wrapping, shifted]
  | some c => simp [shiftMonthsBy, shiftMonths, YearMonth.addMonthsBy_wrapping, shifted]

theorem shiftMonthsBy_checked (m : YearMonth) (w : Int64) : shiftMonthsBy .checked m w =
    if w = Int64.minValue then none else some (shiftMonths m w) := by
  rw [shiftMonthsBy, YearMonth.addMonthsBy_checked]
  split
  · rfl
  · cases shifted : m.addMonths? w with
    | none => simp only [Option.map_some, shiftMonths, shifted]
    | some c => simp only [Option.map_some, shiftMonths, shifted]

/-- Shifting back turns the sign twice, and only the least word resists. -/
theorem turn_shiftMonthsBy_checked (op : InfixOp) (m : YearMonth) (w : Int64) :
    (turn .checked op w).bind (shiftMonthsBy .checked m) =
      if w = Int64.minValue then none else some (shiftMonths m (turned op w)) := by
  have plain : (some w).bind (shiftMonthsBy .checked m) =
      if w = Int64.minValue then none else some (shiftMonths m w) := shiftMonthsBy_checked m w
  cases op with
  | subtract =>
    simp only [turn, turned, WordOps.checked_neg]
    split
    · rfl
    · next other =>
      have other' : -w ≠ Int64.minValue := fun least => other (by
        rw [← Int64.neg_neg (a := w), least]
        rfl)
      rw [Option.bind_some, shiftMonthsBy_checked, if_neg other']
  | _ => exact plain

theorem toInt_turned {op : InfixOp} {w : Int64} :
    (turned op w).toInt = shiftCount op w.toInt ↔ ¬(op = .subtract ∧ w = Int64.minValue) := by
  cases op with
  | subtract =>
    simp only [turned, shiftCount, true_and]
    refine ⟨?_, YearMonth.toInt_neg⟩
    rintro same rfl
    exact absurd same (by decide)
  | _ => simp [turned, shiftCount]

theorem wholeMonths_eq (number : other.asNumber? = some d) : other.wholeMonths =
    match WordOps.word? d.truncated with
    | some w => .ok w
    | none => .error (.notWholeMonths other) := by
  cases fits : WordOps.word? d.truncated with
  | none => simp only [wholeMonths, number, Option.bind_some, Decimal.toInt64?_eq, fits]
  | some w => simp only [wholeMonths, number, Option.bind_some, Decimal.toInt64?_eq, fits]

/-! One shift by a value -/

/-- What a shift comes to as a word is exact, also where the turned sign is lost. -/
theorem shiftMonths_turned {w : Int64} : shiftMonths m (turned op w) = .ok v ↔
    ∃ c, YearMonth.Away (shiftCount op w.toInt) m c ∧ v = yearMonth c := by
  have arrives : ∀ c, m.addMonths? (turned op w) = some c ↔
      YearMonth.Away (shiftCount op w.toInt) m c := by
    intro c
    rw [YearMonth.addMonths?_eq_some_iff_away]
    by_cases lost : op = .subtract ∧ w = Int64.minValue
    · obtain ⟨rfl, rfl⟩ := lost
      refine iff_of_false (fun away => absurd away.near (by decide)) fun away => ?_
      exact absurd away.near (by decide)
    · rw [toInt_turned.2 lost]
  rw [shiftMonths]
  cases reached : m.addMonths? (turned op w) with
  | none =>
    refine iff_of_false nofun ?_
    rintro ⟨c, away, -⟩
    rw [← arrives, reached] at away
    cases away
  | some c' =>
    constructor
    · rintro ⟨⟩
      exact ⟨c', (arrives c').1 reached, rfl⟩
    · rintro ⟨c, away, rfl⟩
      rw [← arrives, reached] at away
      cases away
      rfl

theorem shiftByValue_wrapping (op : InfixOp) (m : YearMonth) (other : Value) :
    shiftByValue .wrapping (turn .wrapping op) m other =
      some (other.wholeMonths.bind fun w => shiftMonths m (turned op w)) := by
  rw [shiftByValue]
  cases other.wholeMonths with
  | error e => rfl
  | ok w =>
    simp only [turn_wrapping, Option.bind_some]
    exact shiftMonthsBy_wrapping m (turned op w)

theorem shiftByValue_checked (op : InfixOp) (number : other.asNumber? = some d) :
    shiftByValue .checked (turn .checked op) m other =
      if d.truncated = -2 ^ 63 then none
      else some (other.wholeMonths.bind fun w => shiftMonths m (turned op w)) := by
  rw [shiftByValue, wholeMonths_eq number]
  cases read : WordOps.word? d.truncated with
  | none =>
    have other : d.truncated ≠ -2 ^ 63 := by
      intro least
      rw [least] at read
      revert read
      decide
    rw [if_neg other]
    rfl
  | some w =>
    simp only [turn_shiftMonthsBy_checked, WordOps.least_iff read]
    rfl

/-- A shift by a value arrives at the month exactly so many months away, or it is an error. -/
theorem shiftByValue_eq_ok (op : InfixOp) (number : other.asNumber? = some d) :
    (other.wholeMonths.bind fun w => shiftMonths m (turned op w)) = .ok v ↔
      ∃ c, YearMonth.Away (shiftCount op d.truncated) m c ∧ v = yearMonth c := by
  rw [wholeMonths_eq number]
  cases read : WordOps.word? d.truncated with
  | none =>
    refine iff_of_false nofun ?_
    rintro ⟨c, away, -⟩
    have near : -2 ^ 63 < d.truncated ∧ d.truncated < 2 ^ 63 := by
      have near := away.near
      unfold shiftCount at near
      split at near
      · omega
      · exact near
    obtain ⟨w, fits, -⟩ := WordOps.word?_of_fits (n := d.truncated) (by omega)
    rw [read] at fits
    cases fits
  | some w =>
    rw [← WordOps.word?_eq_some_iff.1 read]
    exact shiftMonths_turned

/-- The number of months in a report is the one that was asked for, unless its sign could not
be turned. -/
theorem shiftByValue_eq_outOfRange {n : Int64} {start : YearMonth}
    (number : other.asNumber? = some d)
    (refused : (other.wholeMonths.bind fun w => shiftMonths m (turned op w)) =
      .error (.shiftOutOfRange start n)) :
    start = m ∧ (n.toInt = shiftCount op d.truncated ↔
      ¬(op = .subtract ∧ d.truncated = -2 ^ 63)) := by
  rw [wholeMonths_eq number] at refused
  cases read : WordOps.word? d.truncated with
  | none =>
    rw [read] at refused
    cases refused
  | some w =>
    rw [read] at refused
    replace refused : shiftMonths m (turned op w) = .error (.shiftOutOfRange start n) := refused
    rw [shiftMonths] at refused
    split at refused
    · cases refused
    · cases refused
      rw [WordOps.least_iff read, ← WordOps.word?_eq_some_iff.1 read]
      exact ⟨rfl, toInt_turned⟩

/-! The operators -/

theorem monthArithmeticBy_wrapping (left : Value) (op : InfixOp) (right : Value) :
    monthArithmeticBy .wrapping left op right = some (left.monthArithmetic op right) := by
  have plain (m : YearMonth) (other : Value) : shiftByValue .wrapping some m other =
      some (other.wholeMonths.bind fun w => shiftMonths m w) :=
    shiftByValue_wrapping .add m other
  have back (m : YearMonth) (other : Value) :
      shiftByValue .wrapping WordOps.wrapping.neg m other =
        some (other.wholeMonths.bind fun w => shiftMonths m (-w)) :=
    shiftByValue_wrapping .subtract m other
  fun_cases monthArithmetic left op right with
  | case1 m _ number | case3 _ m notMonth number =>
    simp only [monthArithmeticBy, if_pos number, plain]
    rfl
  | case2 m _ notNumber | case4 _ m notMonth notNumber =>
    simp only [monthArithmeticBy, if_neg notNumber]
  | case5 _ m d number =>
    simp only [monthArithmeticBy, number, back]
    rfl
  | case6 _ _ l r first second noShift =>
    simp only [monthArithmeticBy, first, second, YearMonth.monthsUntilBy_wrapping,
      Option.map_some, YearMonth.toInt_monthsUntil]
  | case7 _ _ noShift notMonths => simp only [monthArithmeticBy]
  | case8 => simp only [monthArithmeticBy]

theorem Shifts.number (shifts : Shifts m other d left op right) : other.asNumber? = some d := by
  cases shifts with
  | onward number | swapped number | back number => exact number

theorem Shifts.unique {m' : YearMonth} {other' : Value} {d' : Decimal}
    (shifts : Shifts m other d left op right) (shifts' : Shifts m' other' d' left op right) :
    m = m' ∧ other = other' ∧ d = d' := by
  cases shifts with
  | onward number =>
    cases shifts' with
    | onward number' => exact ⟨rfl, rfl, Option.some.inj (number.symm.trans number')⟩
    | swapped number' => cases number
  | swapped number =>
    cases shifts' with
    | onward number' => cases number
    | swapped number' => exact ⟨rfl, rfl, Option.some.inj (number.symm.trans number')⟩
  | back number =>
    cases shifts'
    next number' => exact ⟨rfl, rfl, Option.some.inj (number.symm.trans number')⟩

/-- What an operator on months does, however the words are computed. -/
inductive MonthStep (left : Value) (op : InfixOp) (right : Value)
    (run : WordOps → Option (Except EvalError Value)) : Prop
  | shift {m : YearMonth} {other : Value} {d : Decimal} (shifts : Shifts m other d left op right)
      (runs : ∀ ops, run ops = shiftByValue ops (turn ops op) m other)
  | count {l r : YearMonth} (counts : Counts l r left op right)
      (runs : ∀ ops, run ops =
        (r.monthsUntilBy ops l).map fun w => .ok (.number (Decimal.ofInt w.toInt)))
  | refuse {e : EvalError} (noShift : ∀ m other d, ¬Shifts m other d left op right)
      (noCount : ∀ l r, ¬Counts l r left op right)
      (plain : ∀ start n, e ≠ .shiftOutOfRange start n) (runs : ∀ ops, run ops = some (.error e))

theorem monthStep (left : Value) (op : InfixOp) (right : Value) :
    MonthStep left op right (monthArithmeticBy · left op right) := by
  fun_cases monthArithmetic left op right with
  | case1 m _ number =>
    obtain ⟨d, value⟩ := Option.isSome_iff_exists.1 number
    refine .shift (.onward value) fun ops => ?_
    simp only [monthArithmeticBy, if_pos number, turn]
  | case3 _ m notMonth number =>
    obtain ⟨d, value⟩ := Option.isSome_iff_exists.1 number
    refine .shift (.swapped value) fun ops => ?_
    simp only [monthArithmeticBy, if_pos number, turn]
  | case2 m _ notNumber =>
    refine .refuse ?_ (fun _ _ counts => by cases counts.minus)
      (e := .undefinedFor .add (yearMonth m) right) (fun _ _ same => by cases same) fun ops => ?_
    · rintro _ _ _ (number | number)
      · exact notNumber (by rw [number]; rfl)
      · cases number
    · simp only [monthArithmeticBy, if_neg notNumber]
  | case4 _ m notMonth notNumber =>
    refine .refuse ?_ (fun _ _ counts => by cases counts.minus)
      (e := .undefinedFor .add left (yearMonth m)) (fun _ _ same => by cases same) fun ops => ?_
    · rintro _ _ _ (number | number)
      · cases number
      · exact notNumber (by rw [number]; rfl)
    · simp only [monthArithmeticBy, if_neg notNumber]
  | case5 _ m d number =>
    refine .shift (.back number) fun ops => ?_
    simp only [monthArithmeticBy, number, turn]
  | case6 _ _ l r second first noShift =>
    refine .count (l := l) (r := r) ⟨rfl, first, second, ?_⟩ fun ops => ?_
    · rintro _ _ _ (_ | _ | number)
      exact noShift _ _ rfl number
    · simp only [monthArithmeticBy, first, second]
  | case7 _ _ noShift notMonths =>
    refine .refuse ?_ (fun _ _ counts => notMonths _ _ counts.first counts.second)
      (e := .cannotSubtract right left) (fun _ _ same => by cases same) fun ops => ?_
    · rintro _ _ _ (_ | _ | number)
      exact noShift _ _ rfl number
    · simp only [monthArithmeticBy]
  | case8 _ _ _ notMinus notOnward notSwapped =>
    refine .refuse ?_ (fun _ _ counts => notMinus counts.minus)
      (e := .undefinedFor op left right) (fun _ _ same => by cases same) fun ops => ?_
    · rintro _ _ _ (number | number | number)
      · exact notOnward _ rfl rfl
      · exact notSwapped _ rfl rfl
      · exact notMinus rfl
    · simp only [monthArithmeticBy]

theorem Counts.unique {l l' r r' : YearMonth} (counts : Counts l r left op right)
    (counts' : Counts l' r' left op right) : l = l' ∧ r = r' :=
  ⟨Option.some.inj (counts.first.symm.trans counts'.first),
    Option.some.inj (counts.second.symm.trans counts'.second)⟩

theorem monthArithmetic_eq_of_runs {result : Except EvalError Value}
    (runs : monthArithmeticBy .wrapping left op right = some result) :
    left.monthArithmetic op right = result :=
  Option.some.inj ((monthArithmeticBy_wrapping left op right).symm.trans runs)

/-- What an operator on months comes to, and what it comes to with checked words. -/
inductive MonthResult (left : Value) (op : InfixOp) (right : Value)
    (result : Except EvalError Value) (checked : Option (Except EvalError Value)) : Prop
  | shift {m : YearMonth} {other : Value} {d : Decimal} (shifts : Shifts m other d left op right)
      (comes : result = other.wholeMonths.bind fun w => shiftMonths m (turned op w))
      (stops : checked = if d.truncated = -2 ^ 63 then none else some result)
  | count {l r : YearMonth} (counts : Counts l r left op right)
      (comes : result = .ok (.number (Decimal.ofInt (r.monthsUntil l))))
      (same : checked = some result)
  | refuse {e : EvalError} (noShift : ∀ m other d, ¬Shifts m other d left op right)
      (noCount : ∀ l r, ¬Counts l r left op right)
      (plain : ∀ start n, e ≠ .shiftOutOfRange start n) (comes : result = .error e)
      (same : checked = some result)

theorem monthResult (left : Value) (op : InfixOp) (right : Value) :
    MonthResult left op right (left.monthArithmetic op right)
      (monthArithmeticBy .checked left op right) := by
  rcases monthStep left op right with
    ⟨shifts, runs⟩ | ⟨counts, runs⟩ | ⟨noShift, noCount, plain, runs⟩
  · have comes := monthArithmetic_eq_of_runs ((runs .wrapping).trans (shiftByValue_wrapping ..))
    refine .shift shifts comes ?_
    rw [runs, shiftByValue_checked op shifts.number, comes]
  · next l r =>
    have distance := YearMonth.toInt_monthsUntil r l
    have comes := monthArithmetic_eq_of_runs (runs .wrapping |>.trans
      (congrArg _ (YearMonth.monthsUntilBy_wrapping r l)))
    simp only [distance] at comes
    refine .count counts comes ?_
    rw [runs, YearMonth.monthsUntilBy_checked, Option.map_some, distance, comes]
  · have comes := monthArithmetic_eq_of_runs (runs .wrapping)
    exact .refuse noShift noCount plain comes (by rw [runs, comes])

/-- An operator on months has exactly the results that the calendar has. -/
theorem monthArithmetic_eq_ok :
    left.monthArithmetic op right = .ok v ↔ Dated left op right v := by
  cases monthResult left op right with
  | shift shifts comes stops =>
    rw [comes, shiftByValue_eq_ok op shifts.number]
    constructor
    · rintro ⟨c, away, rfl⟩
      exact .shifted shifts away
    · rintro (⟨shifts', away⟩ | ⟨counts, -⟩)
      · obtain ⟨rfl, -, rfl⟩ := shifts.unique shifts'
        exact ⟨_, away, rfl⟩
      · exact absurd shifts (counts.noShift _ _ _)
  | count counts comes same =>
    rw [comes]
    constructor
    · rintro ⟨⟩
      exact .counted counts (YearMonth.away_monthsUntil _ _)
    · rintro (⟨shifts, -⟩ | ⟨counts', away⟩)
      · exact absurd shifts (counts.noShift _ _ _)
      · obtain ⟨rfl, rfl⟩ := counts.unique counts'
        rw [away.monthsUntil]
  | refuse noShift noCount plain comes same =>
    rw [comes]
    refine iff_of_false nofun ?_
    rintro (⟨shifts, -⟩ | ⟨counts, -⟩)
    · exact noShift _ _ _ shifts
    · exact noCount _ _ counts

/-- Checked words stop an operator on months at the least word and nowhere else. -/
theorem monthArithmeticBy_checked_eq_none : monthArithmeticBy .checked left op right = none ↔
    ∃ m other d, Shifts m other d left op right ∧ d.truncated = -2 ^ 63 := by
  cases monthResult left op right with
  | shift shifts comes stops =>
    rw [stops]
    refine ⟨fun stopped => ?_, ?_⟩
    · split at stopped
      · next least => exact ⟨_, _, _, shifts, least⟩
      · cases stopped
    · rintro ⟨_, _, _, shifts', least⟩
      obtain ⟨-, -, rfl⟩ := shifts.unique shifts'
      exact if_pos least
  | count counts comes same =>
    rw [same]
    refine iff_of_false nofun ?_
    rintro ⟨_, _, _, shifts, -⟩
    exact counts.noShift _ _ _ shifts
  | refuse noShift noCount plain comes same =>
    rw [same]
    refine iff_of_false nofun ?_
    rintro ⟨_, _, _, shifts, -⟩
    exact noShift _ _ _ shifts

theorem monthArithmetic_eq_of_checked {result : Except EvalError Value}
    (made : monthArithmeticBy .checked left op right = some result) :
    left.monthArithmetic op right = result := by
  cases monthResult left op right with
  | shift shifts comes stops =>
    rw [stops] at made
    split at made
    · cases made
    · exact Option.some.inj made
  | count counts comes same | refuse noShift noCount plain comes same =>
    exact Option.some.inj (same.symm.trans made)

theorem monthArithmetic_eq_outOfRange {start : YearMonth} {n : Int64}
    (refused : left.monthArithmetic op right = .error (.shiftOutOfRange start n)) :
    ∃ other d, Shifts start other d left op right ∧ (n.toInt = shiftCount op d.truncated ↔
      ¬(op = .subtract ∧ d.truncated = -2 ^ 63)) := by
  cases monthResult left op right with
  | shift shifts comes stops =>
    obtain ⟨rfl, count⟩ := shiftByValue_eq_outOfRange shifts.number (comes.symm.trans refused)
    exact ⟨_, _, shifts, count⟩
  | count counts comes same => cases comes.symm.trans refused
  | refuse noShift noCount plain comes same =>
    exact absurd (Except.error.inj (comes.symm.trans refused)) (plain _ _)

/-- At least one of two values is a month. -/
def HasMonth (left right : Value) : Prop :=
  (∃ m, left = yearMonth m) ∨ ∃ m, right = yearMonth m

theorem arithmetic_eq_monthArithmetic (dated : HasMonth left right) (op : InfixOp) :
    left.arithmetic op right = left.monthArithmetic op right := by
  obtain ⟨m, rfl⟩ | ⟨m, rfl⟩ := dated
  · rfl
  · unfold arithmetic
    exact if_pos (Bool.or_true _)

end Value

namespace Function
variable {start months v : Value}

def addMonthsBy (ops : WordOps) (start months : Value) : Option (Except EvalError Value) :=
  match start.asYearMonth? with
  | none => some (.error (.notYearMonth start))
  | some m => Value.shiftByValue ops some m months

/-- The function shifts a month by a number, and refuses anything else before it computes. -/
theorem addMonthsBy_cases (start months : Value) :
    (∃ m d, start.asYearMonth? = some m ∧ months.asNumber? = some d ∧
      (addMonths start months = months.wholeMonths.bind fun w => Value.shiftMonths m w) ∧
      ∀ ops, addMonthsBy ops start months = Value.shiftByValue ops some m months) ∨
    (¬(∃ m d, start.asYearMonth? = some m ∧ months.asNumber? = some d) ∧
      ∃ e, addMonths start months = .error e ∧
        ∀ ops, addMonthsBy ops start months = some (.error e)) := by
  simp only [addMonths, addMonthsBy]
  cases start.asYearMonth? with
  | none =>
    refine .inr ⟨?_, _, rfl, fun ops => rfl⟩
    rintro ⟨m, d, ⟨⟩, -⟩
  | some m =>
    cases number : months.asNumber? with
    | none =>
      have unread : months.wholeMonths = .error (.notWholeMonths months) := by
        rw [Value.wholeMonths, number]
        rfl
      simp only [Value.shiftByValue, unread]
      refine .inr ⟨?_, _, rfl, fun ops => rfl⟩
      rintro ⟨m, d, -, ⟨⟩⟩
    | some d => exact .inl ⟨m, d, rfl, rfl, rfl, fun ops => rfl⟩

theorem addMonthsBy_wrapping (start months : Value) :
    addMonthsBy .wrapping start months = some (addMonths start months) := by
  obtain ⟨m, d, -, -, comes, runs⟩ | ⟨-, e, comes, runs⟩ := addMonthsBy_cases start months
  · rw [runs, comes]
    exact Value.shiftByValue_wrapping .add m months
  · rw [runs, comes]

theorem addMonths_eq_ok : addMonths start months = .ok v ↔ ∃ m d c,
    start.asYearMonth? = some m ∧ months.asNumber? = some d ∧
      YearMonth.Away d.truncated m c ∧ v = .yearMonth c := by
  obtain ⟨m, d, month, number, comes, -⟩ | ⟨refused, e, comes, -⟩ := addMonthsBy_cases start months
  · rw [comes, month, number]
    refine (Value.shiftByValue_eq_ok .add number).trans ⟨?_, ?_⟩
    · rintro ⟨c, away, rfl⟩
      exact ⟨m, d, c, rfl, rfl, away, rfl⟩
    · rintro ⟨_, _, c, ⟨⟩, ⟨⟩, away, rfl⟩
      exact ⟨c, away, rfl⟩
  · rw [comes]
    refine iff_of_false nofun ?_
    rintro ⟨m, d, c, month, number, -⟩
    exact refused ⟨m, d, month, number⟩

theorem addMonthsBy_checked (start months : Value) :
    (addMonthsBy .checked start months = none ∧ ∃ m d, start.asYearMonth? = some m ∧
      months.asNumber? = some d ∧ d.truncated = -2 ^ 63) ∨
    (addMonthsBy .checked start months = some (addMonths start months) ∧
      ¬∃ m d, start.asYearMonth? = some m ∧ months.asNumber? = some d ∧
        d.truncated = -2 ^ 63) := by
  obtain ⟨m, d, month, number, comes, runs⟩ | ⟨refused, e, comes, runs⟩ :=
    addMonthsBy_cases start months
  · have stops := Value.shiftByValue_checked (m := m) .add number
    replace stops := (runs .checked).trans stops
    by_cases least : d.truncated = -2 ^ 63
    · rw [if_pos least] at stops
      exact .inl ⟨stops, m, d, month, number, least⟩
    · rw [if_neg least] at stops
      rw [comes]
      refine .inr ⟨stops, ?_⟩
      rintro ⟨_, d', -, number', least'⟩
      obtain rfl : d = d' := Option.some.inj (number.symm.trans number')
      exact least least'
  · rw [comes]
    refine .inr ⟨runs .checked, ?_⟩
    rintro ⟨m, d, month, number, -⟩
    exact refused ⟨m, d, month, number⟩

end Function

open Value in
/-- Arithmetic with months, and the function that shifts them, have exactly the results of the
calendar, whatever the values are. With checked words they have the same results, and stop
only if the number of months is cut off to the least word, which no sign can be turned of.
Reports of a shift out of range show the number that was asked for, unless that word was
subtracted. Distances stay within words. -/
theorem months_exact (left : Value) (op : InfixOp) (right start months : Value) (a b : YearMonth) :
    (HasMonth left right →
      (∀ v, left.arithmetic op right = .ok v ↔ Dated left op right v) ∧
      monthArithmeticBy .wrapping left op right = some (left.arithmetic op right) ∧
      (∀ result, monthArithmeticBy .checked left op right = some result →
        left.arithmetic op right = result) ∧
      (monthArithmeticBy .checked left op right = none ↔
        ∃ m other d, Shifts m other d left op right ∧ d.truncated = -2 ^ 63) ∧
      ∀ start n, left.arithmetic op right = .error (.shiftOutOfRange start n) →
        ∃ other d, Shifts start other d left op right ∧ (n.toInt = shiftCount op d.truncated ↔
          ¬(op = .subtract ∧ d.truncated = -2 ^ 63))) ∧
    ((∀ v, Function.addMonths start months = .ok v ↔ ∃ m d c, start.asYearMonth? = some m ∧
        months.asNumber? = some d ∧ YearMonth.Away d.truncated m c ∧ v = .yearMonth c) ∧
      Function.addMonthsBy .wrapping start months = some (Function.addMonths start months) ∧
      (∀ result, Function.addMonthsBy .checked start months = some result →
        Function.addMonths start months = result) ∧
      (Function.addMonthsBy .checked start months = none ↔ ∃ m d,
        start.asYearMonth? = some m ∧ months.asNumber? = some d ∧ d.truncated = -2 ^ 63)) ∧
    YearMonth.Away (a.monthsUntil b) a b ∧
      (∀ ops ∈ [WordOps.checked, WordOps.wrapping],
        (a.monthsUntilBy ops b).map Int64.toInt = some (a.monthsUntil b)) ∧
      (Decimal.ofInt (a.monthsUntil b)).quantity = a.monthsUntil b := by
  refine ⟨fun dated => ?_, ?_, ?_⟩
  · rw [arithmetic_eq_monthArithmetic dated]
    exact ⟨fun v => monthArithmetic_eq_ok, monthArithmeticBy_wrapping left op right,
      fun result => monthArithmetic_eq_of_checked, monthArithmeticBy_checked_eq_none,
      fun start n => monthArithmetic_eq_outOfRange⟩
  · refine ⟨fun v => Function.addMonths_eq_ok, Function.addMonthsBy_wrapping start months, ?_⟩
    obtain ⟨stopped, least⟩ | ⟨same, notLeast⟩ := Function.addMonthsBy_checked start months
    · rw [stopped]
      refine ⟨?_, iff_of_true rfl least⟩
      rintro result ⟨⟩
    · rw [same]
      exact ⟨fun _ result => Option.some.inj result, iff_of_false nofun notLeast⟩
  · refine ⟨YearMonth.away_monthsUntil a b, ?_, YearMonth.quantity_monthsUntil a b⟩
    simp only [List.forall_mem_cons, YearMonth.monthsUntilBy_checked,
      YearMonth.monthsUntilBy_wrapping, Option.map_some, YearMonth.toInt_monthsUntil]
    simp

open Value in
/-- Thirteen months and a half before the first month of a year. -/
theorem months_exact_back :
    let start : YearMonth := ⟨2024, 1, by decide, by decide⟩
    let before : YearMonth := ⟨2022, 12, by decide, by decide⟩
    let half : Decimal := ⟨false, 135, 1, by decide, by decide⟩
    HasMonth (yearMonth start) (number half) ∧
      (yearMonth start).arithmetic .subtract (number half) = .ok (yearMonth before) := by
  intro start before half
  have dated : HasMonth (yearMonth start) (number half) := .inl ⟨start, rfl⟩
  obtain ⟨exact, -⟩ := (months_exact (yearMonth start) .subtract (number half) (yearMonth start)
    (number half) start before).1 dated
  refine ⟨dated, (exact _).2 (.shifted (.back rfl) ?_)⟩
  rw [YearMonth.away_iff]
  decide

open Value in
/-- The least word subtracted from a month: its sign cannot be turned, and the report shows the
sign that was to be turned. -/
theorem least_months_subtracted :
    let start : YearMonth := ⟨2024, 1, by decide, by decide⟩
    let least : Decimal := Decimal.ofInt (-2 ^ 63)
    least.toInt64? = some Int64.minValue ∧
      monthArithmeticBy .checked (yearMonth start) .subtract (number least) = none ∧
      (yearMonth start).arithmetic .subtract (number least) =
        .error (.shiftOutOfRange start Int64.minValue) ∧
      (EvalError.shiftOutOfRange start Int64.minValue).message =
        "2024-01 shifted by -9223372036854775808 months is out of range" := by
  intro start least
  have value : least.truncated = -2 ^ 63 := by decide
  have shifts : Shifts start (number least) least (yearMonth start) .subtract (number least) :=
    .back rfl
  have word : WordOps.word? least.truncated = some Int64.minValue := by decide
  have months : (number least).wholeMonths = .ok Int64.minValue := by
    rw [wholeMonths_eq rfl, word]
  have tooFar : start.addMonths? (-Int64.minValue) = none := by decide
  refine ⟨by decide, monthArithmeticBy_checked_eq_none.2 ⟨_, _, _, shifts, value⟩, ?_, by decide⟩
  rw [arithmetic_eq_monthArithmetic (.inl ⟨start, rfl⟩)]
  show (number least).wholeMonths.bind (fun w => shiftMonths start (-w)) = _
  rw [months]
  show shiftMonths start (-Int64.minValue) = _
  rw [shiftMonths, tooFar]
  rfl

end Questionnaire
