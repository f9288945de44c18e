import Questionnaire.Proofs.Definition.Annotation
import Questionnaire.Proofs.Definition.Pieces

/-! The first question or grid of an iteration. The annotation is written into the text of
its header, or into the arguments of a grid; where the header closes without it, it closes
with it too and says the same besides. -/
namespace Questionnaire.Definition

open Text

/-- How a mandate is marked. -/
def IsMark (mark : List Char) : Prop := mark = [] ∨ mark = ['!'] ∨ mark = ['?']

/-- A header without the blanks in front of it. -/
def headerText (id mark t : List Char) : List Char := '[' :: (id ++ (mark ++ t))

section Header
variable {id mark t : List Char}

theorem takeMandateMark_mark (marked : IsMark mark) (follows : Follows t) :
    takeMandateMark (mark ++ t) = ((takeMandateMark mark).1, t) := by
  rcases marked with rfl | rfl | rfl
  · unfold takeMandateMark
    split
    · next same => rw [List.nil_append] at same; subst same; cases follows '!' rfl
    · next same => rw [List.nil_append] at same; subst same; cases follows '?' rfl
    · rfl
  · rfl
  · rfl

theorem mark_idEnd (marked : IsMark mark) (follows : Follows t) :
    ∀ c ∈ (mark ++ t).head?, isQuestionIdChar c = false := by
  rcases marked with rfl | rfl | rfl
  · exact follows.stop rfl rfl
  · intro c head
    cases head
    rfl
  · intro c head
    cases head
    rfl

theorem takeHeaderLine?_headerText (shaped : IsQuestionId (String.ofList id))
    (marked : IsMark mark) (follows : Follows t) : takeHeaderLine? (headerText id mark t) =
      (stripLeading? [']'] (skipLineBlanks (takeOptions t).2)).map fun rest =>
        (⟨String.ofList id, (takeMandateMark mark).1, (takeOptions t).1⟩, rest) := by
  have bracket : stripLeading? ['['] (headerText id mark t) = some (id ++ (mark ++ t)) := rfl
  rw [takeHeaderLine?, bracket]
  simp only [Option.bind_eq_bind, Option.bind_some,
    takeQuestionId?_complete shaped (mark_idEnd marked follows), takeMandateMark_mark marked follows]
  cases stripLeading? [']'] (skipLineBlanks (takeOptions t).2) <;> rfl

theorem isHeaderStart_headerText (shaped : IsQuestionId (String.ofList id))
    (marked : IsMark mark) (follows : Follows t) (some : t ≠ []) :
    isHeaderStart (headerText id mark t) = true := by
  have bracket : stripLeading? ['['] (headerText id mark t) = Option.some (id ++ (mark ++ t)) := rfl
  rw [isHeaderStart, bracket]
  simp only [Option.bind_eq_bind, Option.bind_some,
    takeQuestionId?_complete shaped (mark_idEnd marked follows)]
  rcases marked with rfl | rfl | rfl
  · cases t with
    | nil => contradiction
    | cons c t =>
      have ends := follows c rfl
      simp only [endsValue, Bool.or_eq_true, beq_iff_eq] at ends
      rcases ends with rfl | rfl <;> rfl
  · rfl
  · rfl

/-- A header is read behind the blanks in front of it. -/
theorem headOf?_headerText (shaped : IsQuestionId (String.ofList id)) (marked : IsMark mark)
    (follows : Follows t) (some : t ≠ []) {bs : List Char} (blanks : Blanks bs) :
    headOf? (bs ++ headerText id mark t) =
      (takeHeaderLine? (headerText id mark t)).map fun read => ⟨read.1.id, read.1.directives⟩ := by
  have bracket : ∀ c ∈ (headerText id mark t).head?, isLineBlank c = false := by
    intro c head
    cases head
    rfl
  rw [headOf?, skipLineBlanks_append blanks bracket,
    isHeaderStart_headerText shaped marked follows some]
  rfl

end Header

/-- What an annotated header declares. -/
structure Annotates (loop : LoopHeader) (iteration : Nat) (id : List Char) (head : Head) :
    Prop where
  named : head.id = String.ofList id
  entry : head.directives.loopEntry = some ⟨loop.index, loop.bound, loop.maximum, iteration,
    String.ofList (stemOf id iteration)⟩

/-- What the numbers of an annotation are: words of the size that they are read with. -/
structure Words (loop : LoopHeader) (iteration : Nat) : Prop where
  bound : isIdentifier loop.bound = true
  index : loop.index ≤ largestUInt64
  maximum : loop.maximum ≤ largestUInt32
  iteration : iteration ≤ largestUInt32

theorem stemOf_noteChar {id : List Char} (shaped : IsQuestionId (String.ofList id)) (i : Nat) :
    ∀ c ∈ (String.ofList (stemOf id i)).toList, isNoteChar c = true := by
  have letters : ∀ c ∈ id, isNoteChar c = true := by
    intro c member
    have kept := shaped.chars c (by rwa [String.toList_ofList])
    simp only [isQuestionIdChar, Bool.or_eq_true] at kept
    delta isNoteChar Char.isAlphanum Char.isAlpha
    simp only [Bool.or_eq_true]
    rcases kept with (upper | digit) | underscore
    · exact .inl (.inl (.inl (.inl upper)))
    · exact .inl (.inl (.inr digit))
    · exact .inl (.inr underscore)
  rw [String.toList_ofList, stemOf]
  cases stripped : stripTrailing? (iterationSuffix i).toList id with
  | none => exact letters
  | some stem =>
    obtain ⟨back, taken, rfl⟩ := Option.map_eq_some_iff.1 stripped
    have whole := stripLeading?_eq_some_iff.1 taken
    intro c member
    apply letters
    rw [← List.mem_reverse, whole]
    exact List.mem_append_right _ (List.mem_reverse.1 member)

section Note
variable {loop : LoopHeader} {iteration : Nat} {id mark t : List Char}

/-- The annotation of the copy whose first question has an identifier. -/
def noteOf (loop : LoopHeader) (iteration : Nat) (id : List Char) : List Char :=
  ( annotation loop iteration (String.ofList (stemOf id iteration))).toList

theorem follows_noteOf (t : List Char) : Follows (noteOf loop iteration id ++ t) := by
  rw [noteOf, annotation_toList, List.append_assoc]
  exact follows_note _ _ _

theorem noteOf_options (words : Words loop iteration) (shaped : IsQuestionId (String.ofList id)) :
    OptionsText (noteOf loop iteration id)
      (noteOptions loop iteration (String.ofList (stemOf id iteration))) :=
  optionsText_annotation words.bound (stemOf_noteChar shaped iteration)

/-- A header that closes still does with the annotation in front of its options, and then
declares the iteration. -/
theorem headerText_annotated (words : Words loop iteration)
    (shaped : IsQuestionId (String.ofList id)) (marked : IsMark mark) (follows : Follows t)
    (closes : (takeHeaderLine? (headerText id mark t)).isSome) {bs : List Char}
    (blanks : Blanks bs) :
    ∃ head, headOf? (bs ++ headerText id mark (noteOf loop iteration id ++ t)) = some head ∧
      Annotates loop iteration id head := by
  have text := noteOf_options words shaped
  have some : noteOf loop iteration id ++ t ≠ [] := by
    rw [noteOf, annotation_toList]
    exact List.cons_ne_nil _ _
  have behind : Follows (noteOf loop iteration id ++ t) := follows_noteOf t
  rw [takeHeaderLine?_headerText shaped marked follows, Option.isSome_map] at closes
  obtain ⟨rest, closed⟩ := Option.isSome_iff_exists.1 closes
  rw [headOf?_headerText shaped marked behind some blanks,
    takeHeaderLine?_headerText shaped marked behind, text.reads t follows, closed]
  refine ⟨_, rfl, rfl, ?_⟩
  have unnoted : Unnoted [] := by
    intro o member
    cases member
  exact annotated_loopEntry rfl unnoted words.index words.maximum words.iteration

end Note

end Questionnaire.Definition
