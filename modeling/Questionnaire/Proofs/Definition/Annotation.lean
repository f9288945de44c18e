import Questionnaire.Definition.Unroll
import Questionnaire.Proofs.Definition.Heads
import Questionnaire.Proofs.Text.Numeral

/-! The annotation of an iteration, written as options and read back. It may stand in front
of the options of a header or behind them: while none of them has one of its names, the loop
entry is the one that was written. -/
namespace Questionnaire

open Text

namespace Definition

/-- The characters that the values of an annotation are made of. -/
def isNoteChar (c : Char) : Bool := c.isAlphanum || c == '_' || c == '.'

theorem isNoteChar_cases {c : Char} (note : isNoteChar c = true) :
    (((65 ≤ c.toNat ∧ c.toNat ≤ 90) ∨ (97 ≤ c.toNat ∧ c.toNat ≤ 122)) ∨
      (48 ≤ c.toNat ∧ c.toNat ≤ 57)) ∨ c = '_' ∨ c = '.' := by
  delta isNoteChar Char.isAlphanum Char.isAlpha Char.isUpper Char.isLower Char.isDigit at note
  simp only [Bool.or_eq_true, Bool.and_eq_true, decide_eq_true_eq, beq_iff_eq,
    UInt32.le_iff_toNat_le, ge_iff_le, or_assoc] at note ⊢
  exact note

/-- Such a character neither ends a value nor is a blank. -/
structure NoteChar (c : Char) : Prop where
  unblank : isBlank c = false
  opens : c ≠ '('
  closes : c ≠ ')'
  kept : (isNewline c || endsValue c) = false
  bar : c ≠ '|'

theorem noteChar {c : Char} (note : isNoteChar c = true) : NoteChar c := by
  have other {d : Char} (different : isNoteChar d = false) : c ≠ d := ne_of_holds note different
  refine ⟨?_, other rfl, other rfl, ?_, other rfl⟩
  · simp only [isBlank, Bool.or_eq_false_iff, Bool.and_eq_false_iff, decide_eq_false_iff_not,
      beq_eq_false_iff_ne]
    obtain ((upper | lower) | digit) | rfl | rfl := isNoteChar_cases note
    · omega
    · omega
    · omega
    · decide
    · decide
  · simp only [isNewline, endsValue, Bool.or_eq_false_iff, beq_eq_false_iff_ne]
    exact ⟨⟨other rfl, other rfl⟩, other rfl, other rfl⟩

/-- An option of an annotation, with the comma in front of it. -/
def noteText (key value : String) : List Char := ',' :: (key.toList ++ '=' :: value.toList)

/-- The names of an annotation are words in small letters. -/
structure NoteKey (key : String) : Prop where
  word : ∃ c cs, key.toList = c :: cs ∧ c.isAlpha = true ∧ ∀ x ∈ cs, isOptionKeyChar x = true
  lower : String.ofList (key.toList.map Char.toLower) = key

theorem optionText_note {key value : String} (named : NoteKey key)
    (plain : ∀ c ∈ value.toList, isNoteChar c = true) :
    OptionText (noteText key value) (key, some value) := by
  obtain ⟨⟨c, cs, word, alpha, letters⟩, lower⟩ := named
  have shape : KeyText [] [] c cs [] := ⟨blanks_nil, blanks_nil, alpha, letters, blanks_nil⟩
  have text : ValueText endsValue value.toList := by
    apply ValueText.of_plain
    intro x member
    have note := noteChar (plain x member)
    exact ⟨note.opens, note.closes, note.kept⟩
  have start : ∀ x ∈ value.toList.head?, isLineBlank x = false := by
    intro x head
    have unblank := (noteChar (plain x (List.mem_of_mem_head? head))).unblank
    apply Bool.eq_false_iff.2
    intro blank
    rcases isLineBlank_cases blank with rfl | rfl <;> cases unblank
  have option := OptionText.valued shape blanks_nil text start
  have trimmed : trimChars value.toList = value.toList :=
    trimChars_plain fun x member => (noteChar (plain x member)).unblank
  rw [trimmed, String.ofList_toList, ← word, lower] at option
  simpa [keyText, noteText, word] using option

/-- The options that mark the first question of an iteration. -/
def noteOptions (loop : LoopHeader) (iteration : Nat) (stem : String) :
    List (String × Option String) :=
  [("loop", some (toString loop.index)), ("bound", some loop.bound),
    ("max", some (toString loop.maximum)), ("iteration", some (toString iteration)),
    ("base", some stem)]

theorem annotation_toList (loop : LoopHeader) (iteration : Nat) (stem : String) :
    ( annotation loop iteration stem).toList =
      noteText "loop" (toString loop.index) ++ (noteText "bound" loop.bound ++
        (noteText "max" (toString loop.maximum) ++ (noteText "iteration" (toString iteration) ++
          noteText "base" stem))) := by
  delta annotation
  simp [noteText, String.toList_append]

theorem toString_noteChar (n : Nat) : ∀ c ∈ (toString n).toList, isNoteChar c = true := by
  intro c member
  simp [isNoteChar, Char.isAlphanum, isDigit_toString n c member]

theorem identifier_noteChar {s : String} (identifier : isIdentifier s = true) :
    ∀ c ∈ s.toList, isNoteChar c = true := by
  unfold isIdentifier at identifier
  split at identifier
  · next c cs same =>
    rw [same]
    simp only [Bool.and_eq_true, Bool.or_eq_true, List.all_eq_true] at identifier
    obtain ⟨start, rest⟩ := identifier
    refine List.forall_mem_cons.2 ⟨?_, fun x member => ?_⟩
    · rcases start with alpha | underscore
      · simp [isNoteChar, Char.isAlphanum, alpha]
      · simp [isNoteChar, underscore]
    · have kept := rest x member
      simpa [isNoteChar] using kept
  · contradiction

theorem follows_note (key value : String) (t : List Char) : Follows (noteText key value ++ t) := by
  intro c head
  obtain rfl := Option.some.inj head
  rfl

section Note
variable {loop : LoopHeader} {iteration : Nat} {stem : String}

theorem optionsText_annotation (bound : isIdentifier loop.bound = true)
    (stemmed : ∀ c ∈ stem.toList, isNoteChar c = true) :
    OptionsText ( annotation loop iteration stem).toList (noteOptions loop iteration stem) := by
  rw [annotation_toList]
  have key (name : String) (named : NoteKey name) {value : String}
      (plain : ∀ c ∈ value.toList, isNoteChar c = true) :
      OptionsText (noteText name value) [(name, some value)] := .single (optionText_note named plain)
  refine OptionsText.append (key "loop" ?_ (toString_noteChar _)) (OptionsText.append
    (key "bound" ?_ (identifier_noteChar bound)) (OptionsText.append
      (key "max" ?_ (toString_noteChar _)) (OptionsText.append
        (key "iteration" ?_ (toString_noteChar _)) (key "base" ?_ stemmed) ?_) ?_) ?_) ?_
  any_goals exact follows_note _ _ _
  · exact ⟨⟨'l', _, rfl, rfl, List.all_eq_true.1 rfl⟩, rfl⟩
  · exact ⟨⟨'b', _, rfl, rfl, List.all_eq_true.1 rfl⟩, rfl⟩
  · exact ⟨⟨'m', _, rfl, rfl, List.all_eq_true.1 rfl⟩, rfl⟩
  · exact ⟨⟨'i', _, rfl, rfl, List.all_eq_true.1 rfl⟩, rfl⟩
  · exact ⟨⟨'b', _, rfl, rfl, List.all_eq_true.1 rfl⟩, rfl⟩
  · exact follows_note "base" stem []

end Note

/-! ### Reading it back -/

/-- Options that the directives keep as they stand. -/
def isKept (key : String) : Bool := key != "displayif" && key != "end" && key != "grid"

theorem applyOption_extra (d : Directives) (o : String × Option String) :
    (applyOption d o).extra = if isKept o.1 then d.extra ++ [o] else d.extra := by
  obtain ⟨key, value⟩ := o
  unfold applyOption isKept
  dsimp only
  split
  · next same => simp [beq_iff_eq.1 same]
  · next first =>
    split
    · next same => simp [beq_iff_eq.1 same]
    · next second =>
      split
      · next same => simp [beq_iff_eq.1 same]
      · next third => simp_all

/-- A kept option is looked up among the options of the header. -/
theorem extra_lookup {key : String} (kept : isKept key = true)
    (os : List (String × Option String)) (d : Directives) :
    (os.foldl applyOption d).extra.lookup key = (d.extra.lookup key).or (os.lookup key) := by
  induction os generalizing d with
  | nil => simp
  | cons o os ih =>
    obtain ⟨name, value⟩ := o
    rw [List.foldl_cons, ih, applyOption_extra, List.lookup_cons]
    cases same : key == name with
    | true =>
      obtain rfl := beq_iff_eq.1 same
      rw [if_pos kept, List.lookup_append, List.lookup_cons, same]
      cases d.extra.lookup key <;> rfl
    | false =>
      split
      · rw [List.lookup_append, List.lookup_cons, same]
        cases d.extra.lookup key <;> rfl
      · rfl

theorem optionValue?_extra {key : String} (kept : isKept key = true) (h : Header) :
    optionValue? (h.options.foldl applyOption { mandate := h.mandate }).extra key =
      optionValue? h.options key := by
  rw [optionValue?, extra_lookup kept]
  rfl

theorem directives_loopEntry (h : Header) : h.directives.loopEntry =
    (optionValue? h.options "loop").bind fun _ => readLoopEntry? h.options := by
  have same : (takeLoopEntry (h.options.foldl applyOption { mandate := h.mandate })).loopEntry =
      h.directives.loopEntry := by
    unfold Header.directives
    dsimp only
    split <;> rfl
  have unset : (h.options.foldl applyOption { mandate := h.mandate }).loopEntry = none := by
    have kept (os : List (String × Option String)) (d : Directives) :
        (os.foldl applyOption d).loopEntry = d.loopEntry := by
      induction os generalizing d with
      | nil => rfl
      | cons o os ih =>
        rw [List.foldl_cons, ih]
        unfold applyOption
        dsimp only
        split
        · rfl
        · split
          · rfl
          · split <;> rfl
    exact kept _ _
  have read : readLoopEntry? (h.options.foldl applyOption { mandate := h.mandate }).extra =
      readLoopEntry? h.options := by
    simp only [ readLoopEntry?, optionValue?_extra (show isKept "loop" = true from rfl),
      optionValue?_extra (show isKept "bound" = true from rfl),
      optionValue?_extra (show isKept "max" = true from rfl),
      optionValue?_extra (show isKept "iteration" = true from rfl),
      optionValue?_extra (show isKept "base" = true from rfl)]
  rw [← same, takeLoopEntry, optionValue?_extra (show isKept "loop" = true from rfl)]
  split
  · next none => rw [none, unset]; rfl
  · next some => rw [some]; exact read

/-- Options among which none has a name of the annotation. -/
def Unnoted (os : List (String × Option String)) : Prop := ∀ o ∈ os, o.1 ∉ loopKeys

instance (os : List (String × Option String)) : Decidable (Unnoted os) :=
  inferInstanceAs (Decidable (∀ o ∈ os, o.1 ∉ loopKeys))

theorem Unnoted.lookup {os : List (String × Option String)} (unnoted : Unnoted os) {key : String}
    (loopKey : key ∈ loopKeys) (more : List (String × Option String)) :
    optionValue? (os ++ more) key = optionValue? more key := by
  have none : os.lookup key = none := by
    induction os with
    | nil => rfl
    | cons o os ih =>
      obtain ⟨here, rest⟩ := List.forall_mem_cons.1 unnoted
      have other : (key == o.1) = false := by
        apply beq_eq_false_iff_ne.2
        rintro rfl
        exact here loopKey
      rw [List.lookup_cons, other]
      exact ih rest
  rw [optionValue?, List.lookup_append, none]
  rfl

/-- The loop entry is the one that was written, if it is the first that the header has. -/
theorem annotated_loopEntry {h : Header} {front behind : List (String × Option String)}
    {loop : LoopHeader} {iteration : Nat} {stem : String}
    (options : h.options = front ++ (noteOptions loop iteration stem ++ behind))
    (unnoted : Unnoted front) (index : loop.index ≤ largestUInt64)
    (maximum : loop.maximum ≤ largestUInt32) (counted : iteration ≤ largestUInt32) :
    h.directives.loopEntry =
      some ⟨loop.index, loop.bound, loop.maximum, iteration, stem⟩ := by
  have value {key : String} (loopKey : key ∈ loopKeys) :
      optionValue? h.options key = optionValue? (noteOptions loop iteration stem ++ behind) key := by
    rw [options, unnoted.lookup loopKey]
  have first : optionValue? h.options "loop" = some (toString loop.index) := value (by decide)
  have second : optionValue? h.options "bound" = some loop.bound := value (by decide)
  have third : optionValue? h.options "max" = some (toString loop.maximum) := value (by decide)
  have fourth : optionValue? h.options "iteration" = some (toString iteration) := value (by decide)
  have fifth : optionValue? h.options "base" = some stem := value (by decide)
  rw [directives_loopEntry, first, readLoopEntry?, first, second, third, fourth, fifth]
  simp only [Option.bind_eq_bind, Option.bind_some, readUInt64?, readUInt32?,
    readUnsigned?_toString index, readUnsigned?_toString maximum, readUnsigned?_toString counted]
  rfl

end Definition

end Questionnaire
