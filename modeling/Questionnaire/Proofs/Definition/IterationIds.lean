import Questionnaire.Proofs.Definition.Renaming
import Questionnaire.Proofs.Definition.Unrolled

/-! Identifiers of copies. The stem of a copied identifier and its iteration are read off at the
last two underscores, whatever the stem looks like, and an identifier of a copy is that of a
marker for one stem only. -/
namespace Questionnaire

open Text

/-- A text is cut at the last of a character in one way. -/
theorem Text.cut_last {c : Char} {xs ys zs ws : List Char} (plain : c ∉ ys) (plain' : c ∉ ws)
    (same : xs ++ c :: ys = zs ++ c :: ws) : xs = zs ∧ ys = ws := by
  have cut {xs ys : List Char} (plain : c ∉ ys) :
      cutAtChars? (· == c) (xs ++ c :: ys).reverse = some (ys.reverse, xs.reverse) := by
    rw [List.reverse_append, List.reverse_cons, List.append_assoc, List.singleton_append]
    refine cutAtChars?_append (p := (· == c)) (fun x member => beq_eq_false_iff_ne.2 ?_)
      (beq_self_eq_true c) xs.reverse
    rintro rfl
    exact plain (List.mem_reverse.1 member)
  have parts := (cut plain).symm.trans (same ▸ cut plain')
  simp only [Option.some.injEq, Prod.mk.injEq, List.reverse_inj] at parts
  exact parts.symm

/-- The digits that an iteration is written with. -/
def iterationDigits (iteration : Nat) : List Char := (toString iteration).toList

theorem underscore_notMem_digits (n : Nat) : '_' ∉ iterationDigits n := by
  intro member
  cases isDigit_toString n '_' member

theorem iterationId_chars (stem : String) (iteration : Nat) : (iterationId stem iteration).toList =
    (stem.toList ++ '_' :: iterationDigits iteration) ++ '_' :: iterationDigits iteration := by
  simp [iterationId, iterationSuffix, iterationDigits, String.toList_append]

/-- Stem and iteration of an identifier of a copy. -/
theorem iterationId_inj {stem stem' : String} {i i' : Nat} :
    iterationId stem i = iterationId stem' i' ↔ stem = stem' ∧ i = i' := by
  constructor
  · intro same
    have chars := congrArg String.toList same
    rw [iterationId_chars, iterationId_chars] at chars
    obtain ⟨front, digits⟩ :=
      cut_last (underscore_notMem_digits i) (underscore_notMem_digits i') chars
    obtain ⟨stems, -⟩ := cut_last (underscore_notMem_digits i) (underscore_notMem_digits i') front
    exact ⟨String.toList_inj.1 stems, toString_injective (String.toList_inj.1 digits)⟩
  · rintro ⟨rfl, rfl⟩
    rfl

theorem Definition.stemOf_iterationId (stem : String) (iteration : Nat) :
    stemOf (iterationId stem iteration).toList iteration = stem.toList := by
  have stripped : stripTrailing? (iterationSuffix iteration).toList
      (iterationId stem iteration).toList = some stem.toList := by
    rw [stripTrailing?, iterationId_toList, List.reverse_append,
      stripLeading?_eq_some_iff.2 rfl, Option.map_some, List.reverse_reverse]
  rw [stemOf, stripped, Option.getD_some]

namespace LoopMarker

theorem underscore_notMem_of_readUnsigned? {largest n : Nat} {cs : List Char}
    (read : readUnsigned? largest cs = some n) : '_' ∉ cs := by
  have digits {cs : List Char} {n : Nat} (read : readDigits? cs = some n) : '_' ∉ cs := by
    intro member
    rw [readDigits?] at read
    split at read
    · next all =>
      rw [Bool.and_eq_true] at all
      cases List.all_eq_true.1 all.2 '_' member
    · cases read
  obtain ⟨read, -⟩ := Option.filter_eq_some_iff.1 read
  split at read
  · simpa using digits read
  · exact digits read

/-- The digits of a number read as that number, if it is not too large. -/
theorem readUnsigned?_iterationDigits {largest n i : Nat} :
    readUnsigned? largest (iterationDigits i) = some n ↔ n = i ∧ i ≤ largest := by
  have digits := isDigit_toString i
  have value := readUnsigned?_toString (Nat.le_refl i)
  rw [readUnsigned?_digits digits, Option.filter_eq_some_iff] at value
  rw [iterationDigits, readUnsigned?_digits digits, value.1, Option.filter_some]
  split
  · next least => simp [of_decide_eq_true least, eq_comm]
  · next most => simp [mt decide_eq_true most]

/-- No identifier of a copy is that of a marker, save those of one stem. -/
theorem ofId?_iterationId {stem : String} {iteration : Nat} {m : LoopMarker} :
    ofId? (iterationId stem iteration) = some m ↔
      stem = "__CONT" ∧ iteration ≤ largestUInt32 ∧ m = .continuation iteration iteration := by
  have plain := underscore_notMem_digits iteration
  have front : continuationStem.toList = "__CONT".toList ++ ['_'] := rfl
  have back : endStem.toList = "__ENDLOOP".toList ++ ['_'] := rfl
  constructor
  · intro read
    rw [ofId?] at read
    split at read
    · next rest found =>
      simp only [Option.bind_eq_bind, Option.bind_eq_some_iff, Prod.exists] at read
      obtain ⟨index, number, cut, _, loop, _, last, read⟩ := read
      obtain ⟨c, bar, rfl, -⟩ := cutAtChars?_eq_some cut
      obtain rfl := beq_iff_eq.1 bar
      have chars := stripLeading?_eq_some_iff.1 found
      have shape : continuationStem.toList ++ (index ++ '_' :: number) =
          ("__CONT".toList ++ '_' :: index) ++ '_' :: number := by simp [front]
      rw [iterationId_chars, shape] at chars
      obtain ⟨outer, rfl⟩ := cut_last plain (underscore_notMem_of_readUnsigned? last) chars
      obtain ⟨inner, rfl⟩ := cut_last plain (underscore_notMem_of_readUnsigned? loop) outer
      obtain ⟨rfl, -⟩ := readUnsigned?_iterationDigits.1 loop
      obtain ⟨rfl, fits⟩ := readUnsigned?_iterationDigits.1 last
      exact ⟨String.toList_inj.1 inner, fits, (Option.some.inj read).symm⟩
    · simp only [Option.bind_eq_bind, Option.bind_eq_some_iff] at read
      obtain ⟨rest, found, _, loop, -⟩ := read
      have chars := stripLeading?_eq_some_iff.1 found
      rw [iterationId_chars, back, List.append_assoc _ ['_'], List.singleton_append] at chars
      obtain ⟨outer, -⟩ := cut_last plain (underscore_notMem_of_readUnsigned? loop) chars
      -- What stands there between the last two underscores of the stem is no number.
      have word : "__ENDLOOP".toList = ['_'] ++ '_' :: "ENDLOOP".toList := rfl
      rw [word] at outer
      obtain ⟨-, digits⟩ := cut_last plain (by decide) outer
      have digit := isDigit_toString iteration 'E'
      rw [← iterationDigits, digits] at digit
      cases digit (by decide)
  · rintro ⟨rfl, fits, rfl⟩
    have shape : iterationId "__CONT" iteration = (continuation iteration iteration).id := by
      simp [iterationId, iterationSuffix, LoopMarker.id, continuationStem, ← String.append_assoc]
    rw [shape]
    refine ofId?_id ⟨Nat.le_trans fits (by decide), fits⟩

end LoopMarker

end Questionnaire
