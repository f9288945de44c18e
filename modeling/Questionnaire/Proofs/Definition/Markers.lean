import Questionnaire.Proofs.Definition.Opening

/-! The lines that loop expansion leaves behind an iteration and behind a loop. Each is read as
a header with nothing but its identifier, and the identifier tells the marker. -/
namespace Questionnaire

open Text

namespace LoopMarker

/-- The numbers of a marker are words of the size that they are read with. -/
def Fits : LoopMarker → Prop
  | continuation index iteration => index ≤ largestUInt64 ∧ iteration ≤ largestUInt32
  | endOfLoop index => index ≤ largestUInt64

theorem cutAtChars?_digits (n : Nat) (rest : List Char) :
    cutAtChars? (· == '_') ((toString n).toList ++ '_' :: rest) =
      some ((toString n).toList, rest) := by
  refine cutAtChars?_append (p := (· == '_')) (fun c member => ?_) (beq_self_eq_true '_') rest
  exact beq_eq_false_iff_ne.2 (Definition.ne_of_holds (isDigit_toString n c member) rfl)

/-- Marker and identifier tell each other. -/
theorem ofId?_id {m : LoopMarker} (fits : m.Fits) : ofId? m.id = some m := by
  cases m with
  | continuation index iteration =>
    have front : stripLeading? continuationStem.toList (continuation index iteration).id.toList =
        some ((toString index).toList ++ '_' :: (toString iteration).toList) := by
      rw [stripLeading?_eq_some_iff]
      simp [LoopMarker.id, String.toList_append]
    rw [ofId?, front]
    simp only [Option.bind_eq_bind, cutAtChars?_digits, Option.bind_some,
      readUnsigned?_toString fits.1, readUnsigned?_toString fits.2]
    rfl
  | endOfLoop index =>
    have other : stripLeading? continuationStem.toList (endOfLoop index).id.toList = none := by
      have text : (endOfLoop index).id.toList = endStem.toList ++ (toString index).toList := by
        simp [LoopMarker.id, String.toList_append]
      rw [text]
      rfl
    have front : stripLeading? endStem.toList (endOfLoop index).id.toList =
        some (toString index).toList := by
      rw [stripLeading?_eq_some_iff]
      simp [LoopMarker.id, String.toList_append]
    rw [ofId?, other]
    simp only [Option.bind_eq_bind, front, Option.bind_some, readUnsigned?_toString fits]
    rfl

theorem id_shape (m : LoopMarker) : IsQuestionId m.id := by
  have digits (n : Nat) : ∀ c ∈ (toString n).toList, isQuestionIdChar c = true := by
    intro c member
    simp [isQuestionIdChar, isDigit_toString n c member]
  cases m with
  | continuation index iteration =>
    have text : (continuation index iteration).id.toList = '_' :: (['_', 'C', 'O', 'N', 'T', '_'] ++
        ((toString index).toList ++ '_' :: (toString iteration).toList)) := by
      simp [LoopMarker.id, String.toList_append, continuationStem]
    refine ⟨_, _, text, rfl, ?_⟩
    rw [List.forall_mem_append, List.forall_mem_append]
    exact ⟨List.all_eq_true.1 rfl, digits index, List.forall_mem_cons.2 ⟨rfl, digits iteration⟩⟩
  | endOfLoop index =>
    have text : (endOfLoop index).id.toList =
        '_' :: (['_', 'E', 'N', 'D', 'L', 'O', 'O', 'P', '_'] ++ (toString index).toList) := by
      simp [LoopMarker.id, String.toList_append, endStem]
    refine ⟨_, _, text, rfl, ?_⟩
    rw [List.forall_mem_append]
    exact ⟨List.all_eq_true.1 rfl, digits index⟩

/-- What a marker line declares. -/
def head (m : LoopMarker) : Head := ⟨m.id, {}⟩

end LoopMarker

namespace Definition

theorem headOf?_marker (m : LoopMarker) {bs : List Char} (blanks : Blanks bs) (t : List Char) :
    headOf? (bs ++ headerText m.id.toList [] (']' :: t)) = some m.head := by
  have shaped : IsQuestionId (String.ofList m.id.toList) := by
    rw [String.ofList_toList]
    exact m.id_shape
  have follows : Follows (']' :: t) := by
    intro c head
    obtain rfl := Option.some.inj head
    rfl
  have none : takeOptions (']' :: t) = ([], ']' :: t) := by
    rw [takeOptions_none]
    rfl
  have other : m.id ≠ terminalId := by
    intro same
    have start := congrArg (fun s => s.toList.head?) same
    cases m <;> simp [LoopMarker.id, String.toList_append, LoopMarker.continuationStem,
      LoopMarker.endStem, terminalId] at start
  rw [headOf?_headerText shaped (.inl rfl) follows (List.cons_ne_nil _ _) blanks,
    takeHeaderLine?_headerText shaped (.inl rfl) follows, none, String.ofList_toList]
  change some (Head.mk m.id (if m.id == terminalId then _ else ({} : Directives))) = _
  rw [beq_false_of_ne other]
  rfl

theorem oneLine_marker (m : LoopMarker) : OneLine (m.id.toList ++ [']']) := by
  have shaped : IsQuestionId (String.ofList m.id.toList) := by
    rw [String.ofList_toList]
    exact m.id_shape
  exact (oneLine_id shaped).append (oneLine_single rfl)

theorem heads_marker (m : LoopMarker) {bs : List Char} (blanks : Blanks bs) (ds : List Char) :
    heads (bs ++ (markerLine m ++ ds)) = m.head :: heads ds := by
  have shape : bs ++ (markerLine m ++ ds) =
      bs ++ '[' :: ((m.id.toList ++ [']']) ++ ([] ++ '\n' :: ds)) := by
    simp [markerLine]
  have read : headOf? (bs ++ '[' :: ((m.id.toList ++ [']']) ++ ([] ++ '\n' :: ds))) =
      some m.head := by
    rw [← headOf?_marker m blanks ('\n' :: ds)]
    simp [headerText]
  rw [shape, heads_bracket blanks (oneLine_marker m) (by simp), read]
  rfl

end Definition

end Questionnaire
