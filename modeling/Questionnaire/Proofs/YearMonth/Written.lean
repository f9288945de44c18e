import Questionnaire.Proofs.Text.Cut
import Questionnaire.Proofs.Text.Numeral
import Questionnaire.YearMonth

/-! The text of a month reads as that month again, if its year is not negative: a hyphen in
front of the year would be taken for the one behind it. -/
namespace Questionnaire.YearMonth

open Text

theorem trimStartChars_count (c : Char) (cs : List Char) :
    (trimStartChars cs).count c ≤ cs.count c :=
  (List.dropWhile_sublist isBlank).count_le c

theorem takeDigits?_count {most n : Nat} {cs rest : List Char} (c : Char)
    (taken : takeDigits? most cs = some (n, rest)) : rest.count c ≤ cs.count c := by
  rw [takeDigits?] at taken
  split at taken
  · cases taken
  · cases taken
    exact (List.drop_sublist _ cs).count_le c

/-- Whatever sign the digits stand behind. -/
theorem takeDigits?_map_count {most : Nat} {cs rest : List Char} {year : Int} (signed : Nat → Int)
    (c : Char) (taken : (takeDigits? most cs).map (fun (n, rest) => (signed n, rest)) =
      some (year, rest)) : rest.count c ≤ cs.count c := by
  obtain ⟨⟨n, behind⟩, digits, same⟩ := Option.map_eq_some_iff.1 taken
  cases same
  exact takeDigits?_count c digits

theorem takeYear?_count {year : Int} {cs rest : List Char} (c : Char)
    (taken : takeYear? cs = some (year, rest)) : rest.count c ≤ cs.count c := by
  have trimmed := trimStartChars_count c cs
  rw [takeYear?] at taken
  split at taken
  · next start =>
    rw [start] at trimmed
    exact Nat.le_trans (takeDigits?_map_count (fun n => -(n : Int)) c taken)
      (Nat.le_trans List.count_le_count_cons trimmed)
  · next start =>
    rw [start] at trimmed
    exact Nat.le_trans (takeDigits?_map_count Int.ofNat c taken)
      (Nat.le_trans List.count_le_count_cons trimmed)
  · exact Nat.le_trans (takeDigits?_map_count Int.ofNat c taken) trimmed

theorem takePart?_count {separator : Char} {n : Nat} {cs rest : List Char}
    (taken : takePart? separator cs = some (n, rest)) :
    rest.count separator < cs.count separator := by
  simp only [takePart?, Option.bind_eq_bind, Option.bind_eq_some_iff] at taken
  obtain ⟨behind, stripped, digits⟩ := taken
  rw [stripLeading?_eq_some_iff] at stripped
  have left := Nat.le_trans (takeDigits?_count separator digits)
    (trimStartChars_count separator behind)
  rw [stripped, List.singleton_append, List.count_cons_self]
  exact Nat.lt_succ_of_le left

/-- A full date has two hyphens. -/
theorem readDate?_eq_none {cs : List Char} (few : cs.count '-' ≤ 1) : readDate? cs = none := by
  rw [Option.eq_none_iff_forall_ne_some]
  intro m read
  simp only [readDate?, Option.bind_eq_bind, Option.bind_eq_some_iff] at read
  obtain ⟨⟨year, rest⟩, yearTaken, ⟨month, rest'⟩, monthTaken, ⟨day, rest''⟩, dayTaken, -⟩ := read
  have first := takeYear?_count '-' yearTaken
  have second := takePart?_count monthTaken
  have third := takePart?_count dayTaken
  dsimp only at second third
  omega

/-- The digits of year and month in the text of a month whose year is not negative. -/
theorem text_toList {m : YearMonth} (common : 0 ≤ m.year) : m.text.toList =
    (padZeros 4 (toString m.year.natAbs)).toList ++ '-' :: (padZeros 2 (toString m.month)).toList := by
  have year : ¬m.year < 0 := Int.not_lt.2 common
  have month : ¬(m.month : Int) < 0 := by omega
  simp [text, signedDigits, year, month, String.toList_append]

theorem ne_hyphen_of_isDigit {c : Char} (digit : c.isDigit = true) : c ≠ '-' := by
  rintro rfl
  cases digit

theorem readSigned?_digits {largest : Nat} {cs : List Char}
    (digits : ∀ c ∈ cs, c.isDigit = true) :
    readSigned? largest cs = (readUnsigned? largest cs).map Int.ofNat := by
  unfold readSigned?
  split
  · cases digits '-' List.mem_cons_self
  · rfl

theorem read?_text {m : YearMonth} (common : 0 ≤ m.year) : read? m.text = some m := by
  have years := isDigit_padZeros 4 m.year.natAbs
  have months := isDigit_padZeros 2 m.month
  have chars := text_toList common
  have plain : ∀ c ∈ m.text.toList, isBlank c = false := by
    rw [chars]
    refine List.forall_mem_append.2 ⟨fun c digit => isBlank_of_isDigit (years c digit),
      List.forall_mem_cons.2 ⟨rfl, fun c digit => isBlank_of_isDigit (months c digit)⟩⟩
  have trimmed : trim m.text = m.text := by
    rw [trim, trimChars_plain plain, String.ofList_toList]
  have noDate : readDate? m.text.toList = none := by
    have none {cs : List Char} (digits : ∀ c ∈ cs, c.isDigit = true) : cs.count '-' = 0 :=
      List.count_eq_zero.2 fun hyphen => ne_hyphen_of_isDigit (digits _ hyphen) rfl
    have single : m.text.toList.count '-' = 1 := by
      rw [chars, List.count_append, List.count_cons_self, none years, none months]
    exact readDate?_eq_none (Nat.le_of_eq single)
  have cut : cutAtChars? (fun c => c == '-' || c == '/') m.text.toList =
      some ((padZeros 4 (toString m.year.natAbs)).toList,
        (padZeros 2 (toString m.month)).toList) := by
    rw [chars]
    refine cutAtChars?_append (fun c digit => ?_) rfl _
    have other : c ≠ '/' := by
      rintro rfl
      cases years _ digit
    simp [ne_hyphen_of_isDigit (years c digit), other]
  have year : readSigned? largestInt32 (padZeros 4 (toString m.year.natAbs)).toList =
      some m.year := by
    have small : m.year.natAbs ≤ largestInt32 := by
      have most := m.year_range.2
      simp only [latestYear] at most
      simp only [largestInt32]
      omega
    rw [readSigned?_digits years, readUnsigned?_padZeros small, Option.map_some]
    exact congrArg some (Int.natAbs_of_nonneg common)
  have month : readUnsigned? largestUInt32 (padZeros 2 (toString m.month)).toList =
      some m.month := by
    refine readUnsigned?_padZeros ?_
    have most := m.month_range.2
    simp only [largestUInt32]
    omega
  have found : of? m.year m.month = some m := dif_pos ⟨m.year_range, m.month_range⟩
  simp only [read?, read, trimmed, noDate, cut, year, month, found, Except.toOption]

end Questionnaire.YearMonth
