import Questionnaire.Text.Blank
import Questionnaire.Text.Numeral

/-! Numerals as they are written: digits, which a reader takes for the number, with or
without zeros in front of them. -/
namespace Questionnaire.Text

theorem isDigit_toString (n : Nat) : ∀ c ∈ (toString n).toList, c.isDigit = true := by
  intro c member
  rw [Nat.toString_eq_ofList_toDigits, String.toList_ofList] at member
  exact Nat.isDigit_of_mem_toDigits (by decide) (by decide) member

theorem toList_padZeros (width n : Nat) : ∃ zeros,
    (padZeros width (toString n)).toList = List.replicate zeros '0' ++ Nat.toDigits 10 n := by
  refine ⟨width - (toString n).length, ?_⟩
  rw [padZeros, String.toList_append, String.toList_ofList, Nat.toString_eq_ofList_toDigits,
    String.toList_ofList]

theorem isDigit_padZeros (width n : Nat) :
    ∀ c ∈ (padZeros width (toString n)).toList, c.isDigit = true := by
  obtain ⟨zeros, chars⟩ := toList_padZeros width n
  rw [chars]
  refine List.forall_mem_append.2 ⟨fun c zero => ?_, fun c digit => ?_⟩
  · rw [List.eq_of_mem_replicate zero]
    rfl
  · exact Nat.isDigit_of_mem_toDigits (by decide) (by decide) digit

theorem padZeros_ne_nil (width n : Nat) : (padZeros width (toString n)).toList ≠ [] := by
  obtain ⟨zeros, chars⟩ := toList_padZeros width n
  rw [chars]
  exact List.append_ne_nil_of_right_ne_nil _ Nat.toDigits_ne_nil

theorem readUnsigned?_digits {largest : Nat} {cs : List Char} (digits : ∀ c ∈ cs, c.isDigit = true) :
    readUnsigned? largest cs = (readDigits? cs).filter (· ≤ largest) := by
  unfold readUnsigned?
  split
  · cases digits '+' List.mem_cons_self
  · rfl

theorem readUnsigned?_padZeros {width n largest : Nat} (least : n ≤ largest) :
    readUnsigned? largest (padZeros width (toString n)).toList = some n := by
  have digits := isDigit_padZeros width n
  have nonempty := padZeros_ne_nil width n
  have value : digitsValue (padZeros width (toString n)).toList = n := by
    obtain ⟨zeros, chars⟩ := toList_padZeros width n
    rw [chars]
    calc digitsValue (List.replicate zeros '0' ++ Nat.toDigits 10 n)
        = Nat.ofDigitChars 10 (List.replicate zeros '0' ++ Nat.toDigits 10 n) 0 := rfl
      _ = Nat.ofDigitChars 10 (Nat.toDigits 10 n) 0 := by
        rw [Nat.ofDigitChars_append, Nat.ofDigitChars_replicate_zero, Nat.mul_zero]
      _ = n := Nat.ofDigitChars_ten_toDigits
  have read : readDigits? (padZeros width (toString n)).toList = some n := by
    rw [readDigits?, value, List.all_eq_true.2 digits, List.isEmpty_eq_false_iff.2 nonempty]
    rfl
  rw [readUnsigned?_digits digits, read, Option.filter_some, if_pos (decide_eq_true least)]

theorem readUnsigned?_toString {n largest : Nat} (least : n ≤ largest) :
    readUnsigned? largest (toString n).toList = some n := by
  have plain : padZeros 0 (toString n) = toString n := by simp [padZeros]
  rw [← plain]
  exact readUnsigned?_padZeros least

theorem toString_injective {n m : Nat} (same : toString n = toString m) : n = m := by
  have read := readUnsigned?_toString (Nat.le_max_left n m)
  rw [same, readUnsigned?_toString (Nat.le_max_right n m)] at read
  exact (Option.some.inj read).symm

theorem trimChars_plain {cs : List Char} (plain : ∀ c ∈ cs, isBlank c = false) :
    trimChars cs = cs := by
  have start (cs : List Char) (plain : ∀ c ∈ cs, isBlank c = false) : cs.dropWhile isBlank = cs := by
    cases cs with
    | nil => rfl
    | cons c cs => rw [List.dropWhile_cons, if_neg (by simp [plain c List.mem_cons_self])]
  rw [trimChars, trimStartChars, start cs plain, trimEndChars, start cs.reverse (by simpa using plain),
    List.reverse_reverse]

theorem isBlank_of_isDigit {c : Char} (digit : c.isDigit = true) : isBlank c = false := by
  have range : 48 ≤ c.toNat ∧ c.toNat ≤ 57 := by
    delta Char.isDigit at digit
    simp only [Bool.and_eq_true, decide_eq_true_eq, UInt32.le_iff_toNat_le, ge_iff_le] at digit
    exact digit
  simp only [isBlank, Bool.or_eq_false_iff, Bool.and_eq_false_iff, decide_eq_false_iff_not,
    beq_eq_false_iff_ne]
  omega

end Questionnaire.Text
