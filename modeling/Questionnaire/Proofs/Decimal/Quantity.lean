import Mathlib.Data.Rat.Cast.CharZero
import Mathlib.Tactic.Positivity
import Questionnaire.Decimal.Reader

/-! The rational number that a decimal stands for, and when it is a whole one. A zero that was
read from a text has no sign, so that such a decimal is negative exactly if its quantity is. -/
namespace Questionnaire.Decimal

open Text

def quantity (d : Decimal) : ℚ := d.signed / (powerOfTen d.scale : ℕ)

theorem powerOfTen_pos (n : Nat) : 0 < powerOfTen n := Nat.pow_pos (by decide)

theorem quantity_eq_natCast_iff {d : Decimal} {k : Nat} :
    d.quantity = k ↔ d.signed = k * powerOfTen d.scale := by
  have positive : (powerOfTen d.scale : ℚ) ≠ 0 := by
    exact_mod_cast (powerOfTen_pos d.scale).ne'
  rw [quantity, div_eq_iff positive]
  exact_mod_cast Iff.rfl

/-- Without a sign a decimal stands for a whole number if its fraction digits are zeros. -/
theorem quantity_eq_iff_whole {d : Decimal} (unsigned : d.negative = false) {k : Nat} :
    d.quantity = k ↔ d.isWhole = true ∧ d.wholePart = k := by
  have positive := powerOfTen_pos d.scale
  have plain : d.signed = d.coefficient := by rw [signed, unsigned]; rfl
  rw [quantity_eq_natCast_iff, plain, isWhole, wholePart, beq_iff_eq]
  norm_cast
  constructor
  · intro whole
    rw [whole]
    exact ⟨Nat.mul_mod_left .., Nat.mul_div_cancel _ positive⟩
  · rintro ⟨whole, rfl⟩
    exact (Nat.div_mul_cancel (Nat.dvd_of_mod_eq_zero whole)).symm

/-- A sign in front of what is not zero. -/
def SignCounts (d : Decimal) : Prop := d.negative = true → d.coefficient ≠ 0

theorem SignCounts.unsigned {d : Decimal} (counts : d.SignCounts) {k : Nat}
    (natural : d.quantity = k) : d.negative = false := by
  rw [quantity_eq_natCast_iff, signed] at natural
  cases sign : d.negative with
  | false => rfl
  | true =>
    rw [sign, if_pos rfl] at natural
    have given := Nat.pos_of_ne_zero (counts sign)
    have product : 0 ≤ (k : Int) * powerOfTen d.scale := by positivity
    omega

/-! What is read from a text -/

theorem ofParts?_signCounts {negative : Bool} {coefficient scale : Nat} {d : Decimal}
    (made : ofParts? negative coefficient scale = some d) : d.SignCounts := by
  rw [ofParts?] at made
  split at made
  · cases made
    simp [SignCounts]
  · cases made

theorem Numeral.finish_signCounts {n : Numeral} {negative : Bool} {d : Decimal}
    (read : n.finish negative = some d) : d.SignCounts := by
  rw [finish] at read
  split at read
  · exact ofParts?_signCounts read
  · cases read

theorem Numeral.rounded_signCounts {n : Numeral} {negative : Bool} {next : Nat} {d : Decimal}
    (read : n.rounded negative next = some d) : d.SignCounts := by
  rw [rounded] at read
  generalize (if next ≥ 5 then n.coefficient + 1 else n.coefficient) = up at read
  split at read
  · exact ofParts?_signCounts read
  · split at read
    · cases read
    · exact ofParts?_signCounts read

theorem Numeral.read_signCounts {n : Numeral} {negative : Bool} {cs : List Char} {d : Decimal}
    (taken : n.read negative cs = some d) : d.SignCounts := by
  fun_induction read negative n cs with
  | case1 => exact finish_signCounts taken
  | case2 => exact rounded_signCounts taken
  | case3 => cases taken
  | case4 _ _ _ _ _ _ _ ih => exact ih taken
  | case5 => exact finish_signCounts taken
  | case6 _ _ _ _ _ _ ih => exact ih taken
  | case7 _ _ _ _ _ _ _ ih => exact ih taken
  | case8 => cases taken

theorem readPlain?_signCounts {cs : List Char} {d : Decimal} (read : readPlain? cs = some d) :
    d.SignCounts := by
  unfold readPlain? at read
  split at read
  all_goals exact Numeral.read_signCounts read

theorem stripZeros_ne_zero {coefficient scale : Nat} (given : coefficient ≠ 0) :
    (stripZeros coefficient scale).1 ≠ 0 := by
  fun_induction stripZeros coefficient scale with
  | case1 => exact given
  | case2 coefficient scale zero ih => exact ih (by omega)
  | case3 => exact given

theorem normalize_signCounts (d : Decimal) : d.normalize.SignCounts := by
  intro negative
  simp only [normalize, Bool.and_eq_true, bne_iff_ne] at negative
  exact stripZeros_ne_zero negative.2

theorem shiftRight?_signCounts {d r : Decimal} {places : Nat}
    (shifted : shiftRight? d places = some r) : r.SignCounts := by
  rw [shiftRight?] at shifted
  split at shifted
  · exact ofParts?_signCounts shifted
  · split at shifted
    · cases shifted
    · obtain ⟨rounded, -, rfl⟩ := Option.map_eq_some_iff.1 shifted
      exact normalize_signCounts rounded

theorem readScientific?_signCounts {mantissa exponent : List Char} {d : Decimal}
    (read : readScientific? mantissa exponent = some d) : d.SignCounts := by
  unfold readScientific? at read
  simp only [Option.bind_eq_bind, Option.bind_eq_some_iff] at read
  obtain ⟨base, -, read⟩ := read
  split at read
  all_goals
    simp only [Option.bind_eq_some_iff] at read
    obtain ⟨places, -, shifted⟩ := read
  · exact ofParts?_signCounts shifted
  · exact shiftRight?_signCounts shifted

theorem read?_signCounts {s : String} {d : Decimal} (read : read? s = some d) : d.SignCounts := by
  unfold read? at read
  split at read
  · exact readScientific?_signCounts read
  · exact readPlain?_signCounts read

end Questionnaire.Decimal
