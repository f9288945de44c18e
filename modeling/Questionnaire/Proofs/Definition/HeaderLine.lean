import Questionnaire.Proofs.Definition.Options
import Questionnaire.Proofs.Survey.Compiled

/-! Headers as lines of a text: what a line says about its question, and what becomes of it
when options are put in. -/
namespace Questionnaire

/-- What a header declares. -/
structure Head where
  id : String
  directives : Directives
deriving DecidableEq

def QuestionText.head (q : QuestionText) : Head := ⟨q.id, q.directives⟩

namespace Definition

open Text

/-- The header at the beginning of a text, behind blanks. -/
def headOf? (cs : List Char) : Option Head :=
  if isHeaderStart (skipLineBlanks cs) then
    (takeHeaderLine? (skipLineBlanks cs)).map fun read => ⟨read.1.id, read.1.directives⟩
  else none

theorem takeQuestionId?_complete {id : List Char} (shaped : IsQuestionId (String.ofList id))
    {t : List Char} (stop : ∀ c ∈ t.head?, isQuestionIdChar c = false) :
    takeQuestionId? (id ++ t) = some (id, t) := by
  obtain ⟨c, cs, same, start, rest⟩ := shaped
  rw [String.toList_ofList] at same
  subst same
  rw [List.cons_append, takeQuestionId?, if_pos start, takeWhile_append_stop cs stop,
    dropWhile_append_stop cs stop, List.takeWhile_eq_self_iff.2 rest,
    List.dropWhile_eq_nil_iff.2 rest, List.nil_append]

theorem unblank_id {id : List Char} (shaped : IsQuestionId (String.ofList id)) (t : List Char) :
    ∀ c ∈ (id ++ t).head?, isLineBlank c = false := by
  obtain ⟨c, cs, same, start, -⟩ := shaped
  rw [String.toList_ofList] at same
  subst same
  intro d head
  obtain rfl := Option.some.inj head
  exact isLineBlank_eq_false start rfl rfl

section LineEnd
variable {t : List Char} (lineEnd : LineEnd t)
include lineEnd

theorem takeQuestionId?_lineEnd (cs : List Char) : takeQuestionId? (cs ++ t) =
    (takeQuestionId? cs).map fun read => (read.1, read.2 ++ t) := by
  have idEnd : ∀ c ∈ t.head?, isQuestionIdChar c = false := lineEnd.stop rfl rfl
  cases cs with
  | nil =>
    cases t with
    | nil => rfl
    | cons c t =>
      have plain : isQuestionIdStart c = false := eq_false_of_newline (lineEnd c rfl) rfl rfl
      simp [takeQuestionId?, plain]
  | cons c cs =>
    rw [List.cons_append, takeQuestionId?, takeQuestionId?]
    split
    · rw [takeWhile_append_stop cs idEnd, dropWhile_append_stop cs idEnd]
      rfl
    · rfl

theorem isHeaderStart_lineEnd (cs : List Char) : isHeaderStart (cs ++ t) = isHeaderStart cs := by
  rw [isHeaderStart, isHeaderStart, stripLeading?_lineEnd lineEnd (oneLine_single rfl)]
  cases stripLeading? ['['] cs with
  | none => rfl
  | some rest =>
    simp only [Option.map_some, Option.bind_eq_bind, Option.bind_some,
      takeQuestionId?_lineEnd lineEnd]
    cases takeQuestionId? rest with
    | none => rfl
    | some read =>
      obtain ⟨id, behind⟩ := read
      cases behind with
      | cons c behind => rfl
      | nil =>
        cases t with
        | nil => rfl
        | cons c t =>
          rcases isNewline_cases (lineEnd c rfl) with rfl | rfl <;> rfl

theorem takeMandateMark_lineEnd (cs : List Char) :
    takeMandateMark (cs ++ t) = ((takeMandateMark cs).1, (takeMandateMark cs).2 ++ t) := by
  have read {c : Char} (hard : c ≠ '!') (soft : c ≠ '?') (more : List Char) :
      takeMandateMark (c :: more) = (.optional, c :: more) := by
    unfold takeMandateMark
    split
    · next same => exact absurd (List.cons.inj same).1 hard
    · next same => exact absurd (List.cons.inj same).1 soft
    · rfl
  cases cs with
  | nil =>
    cases t with
    | nil => rfl
    | cons c t =>
      have newline := lineEnd c rfl
      rw [List.nil_append, read (ne_of_holds newline rfl) (ne_of_holds newline rfl)]
      rfl
  | cons c cs =>
    by_cases hard : c = '!'
    · subst hard
      rfl
    · by_cases soft : c = '?'
      · subst soft
        rfl
      · rw [List.cons_append, read hard soft, read hard soft]
        rfl

theorem takeHeaderLine?_lineEnd (cs : List Char) : takeHeaderLine? (cs ++ t) =
    (takeHeaderLine? cs).map fun read => (read.1, read.2 ++ t) := by
  rw [takeHeaderLine?, takeHeaderLine?, stripLeading?_lineEnd lineEnd (oneLine_single rfl)]
  cases stripLeading? ['['] cs with
  | none => rfl
  | some rest =>
    simp only [Option.map_some, Option.bind_eq_bind, Option.bind_some,
      takeQuestionId?_lineEnd lineEnd]
    cases takeQuestionId? rest with
    | none => rfl
    | some read =>
      simp only [Option.map_some, Option.bind_some, takeMandateMark_lineEnd lineEnd,
        takeOptions_lineEnd lineEnd, skipLineBlanks_lineEnd lineEnd,
        stripLeading?_lineEnd lineEnd (oneLine_single (show isNewline ']' = false from rfl))]
      cases stripLeading? [']'] (skipLineBlanks (takeOptions (takeMandateMark read.2).2).2) <;> rfl

/-- What a header says does not depend on the lines behind it. -/
theorem headOf?_lineEnd (cs : List Char) : headOf? (cs ++ t) = headOf? cs := by
  rw [headOf?, headOf?, skipLineBlanks_lineEnd lineEnd, isHeaderStart_lineEnd lineEnd,
    takeHeaderLine?_lineEnd lineEnd, Option.map_map]
  rfl

end LineEnd

end Definition

end Questionnaire
