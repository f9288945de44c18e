import Questionnaire.Proofs.Definition.Segments

/-! Segmentation is local. A text behind a line feed that begins with a boundary is segmented on
its own, with its places shifted, so a header that never closes is missed nowhere else; and the
questions of a text stand in its order. -/
namespace Questionnaire

/-- A span in a text that stands behind so many bytes and lines. -/
def Span.shift (s : Span) (bytes lines : Nat) : Span :=
  { s.offset bytes with line := s.line + lines }

def QuestionText.shift (q : QuestionText) (bytes lines : Nat) : QuestionText :=
  { q with span := q.span.shift bytes lines }

namespace Position
variable {p q : Position}

theorem offset_advance (p : Position) (cs : List Char) :
    (p.advance cs).offset = p.offset + (String.ofList cs).utf8ByteSize := by
  induction cs generalizing p with
  | nil => rfl
  | cons c cs ih =>
    have step : (p.step c).offset = p.offset + c.utf8Size := by
      unfold Position.step
      split <;> rfl
    have bytes : (String.ofList (c :: cs)).utf8ByteSize =
        c.utf8Size + (String.ofList cs).utf8ByteSize := by
      rw [← List.singleton_append, String.ofList_append, String.utf8ByteSize_append]
      exact congrArg (· + _) String.utf8ByteSize_singleton
    change ((p.step c).advance cs).offset = _
    rw [ih, step, bytes, Nat.add_assoc]

theorem line_advance (p : Position) (cs : List Char) :
    (p.advance cs).line = p.line + cs.count '\n' := by
  induction cs generalizing p with
  | nil => rfl
  | cons c cs ih =>
    have step : (p.step c).line = p.line + if c == '\n' then 1 else 0 := by
      unfold Position.step
      split <;> rfl
    change ((p.step c).advance cs).line = _
    rw [ih, step, List.count_cons]
    omega

/-- A place in a text that stands behind so many bytes and lines. -/
def shift (p : Position) (bytes lines : Nat) : Position :=
  { p with offset := p.offset + bytes, line := p.line + lines }

theorem shift_advance (p : Position) (bytes lines : Nat) (cs : List Char) :
    (p.shift bytes lines).advance cs = (p.advance cs).shift bytes lines := by
  induction cs generalizing p with
  | nil => rfl
  | cons c cs ih =>
    have step : (p.shift bytes lines).step c = (p.step c).shift bytes lines := by
      unfold Position.step
      split <;> simp [shift, Nat.add_right_comm]
    change ((p.shift bytes lines).step c).advance cs = _
    rw [step]
    exact ih (p.step c)

/-- Behind a line feed, places are as at the beginning of a text. -/
theorem advance_lineFeed (cs : List Char) : ({} : Position).advance (cs ++ ['\n']) =
    ({} : Position).shift ((String.ofList cs).utf8ByteSize + 1) (cs.count '\n' + 1) := by
  have feed (p : Position) : p.advance ['\n'] = ⟨p.offset + 1, p.line + 1, 1⟩ := rfl
  rw [advance_append, feed, offset_advance, line_advance, shift]
  simp only [Position.mk.injEq, and_true]
  omega

end Position

namespace Definition

open Text

/-! ### Texts behind a line feed -/

theorem chunks_lineFeed {a b chunk : List Char} {more : List (List Char)}
    (ends : a.getLast? ≠ some '\r') (begins : isHeaderStart (skipLineBlanks b) = true)
    (cut : chunks false b = chunk :: more) (afterReturn : Bool)
    (apart : a = [] → afterReturn = false) :
    chunks afterReturn (a ++ '\n' :: b) = chunks afterReturn a ++ ('\n' :: chunk) :: more := by
  induction a generalizing afterReturn with
  | nil =>
    obtain rfl := apart rfl
    have boundary : isBoundary ('\n' :: b) = true := begins
    have inner : chunks ('\n' == '\r') b = chunk :: more := cut
    have whole : chunks false ('\n' :: b) = [] :: ('\n' :: chunk) :: more := by
      rw [chunks, inner, boundary]
      rfl
    exact whole
  | cons c a ih =>
    have alone : c :: a ≠ ['\r'] := by
      intro same
      rw [same] at ends
      exact ends rfl
    have still : isBoundary (c :: (a ++ '\n' :: b)) = isBoundary (c :: a) :=
      isBoundary_lineEnd (lineEnd_cons rfl b) (List.cons_ne_nil _ _) alone
    have behind : a = [] → (c == '\r') = false := by
      rintro rfl
      apply beq_eq_false_iff_ne.2
      rintro rfl
      exact alone rfl
    have further : a.getLast? ≠ some '\r' := by
      cases a with
      | nil => simp
      | cons d a => rwa [List.getLast?_cons_cons] at ends
    obtain ⟨first, others, front⟩ := chunks_cons (c == '\r') a
    rw [List.cons_append, chunks, ih further _ behind, chunks, front, List.cons_append]
    simp only [still]
    split <;> rfl

theorem questionsFrom_append (place : Position) (front back : List (List Char)) :
    questionsFrom place (front ++ back) =
      questionsFrom place front ++ questionsFrom (place.advance front.flatten) back := by
  induction front generalizing place with
  | nil => rfl
  | cons chunk front ih =>
    rw [List.cons_append, questionsFrom, questionsFrom, ih, List.append_assoc, List.flatten_cons,
      Position.advance_append]

theorem questionOf?_shift (place : Position) (bytes lines : Nat) (chunk : List Char) :
    questionOf? (place.shift bytes lines) chunk =
      (questionOf? place chunk).map (·.shift bytes lines) := by
  rw [questionOf?, questionOf?]
  obtain ⟨indent, text⟩ := takeIndent chunk
  cases begins : isHeaderStart text with
  | false => simp [begins]
  | true =>
    simp only [begins, Position.shift_advance]
    cases takeHeaderLine? text <;> rfl

theorem questionsFrom_shift (place : Position) (bytes lines : Nat) (chunks : List (List Char)) :
    questionsFrom (place.shift bytes lines) chunks =
      (questionsFrom place chunks).map (·.shift bytes lines) := by
  induction chunks generalizing place with
  | nil => rfl
  | cons chunk more ih =>
    rw [questionsFrom, questionsFrom, questionOf?_shift, Position.shift_advance, ih,
      List.map_append]
    cases questionOf? place chunk <;> rfl

/-- Questions begin behind a line feed as they begin at the front of a text. -/
theorem questionOf?_lineFeed {chunk : List Char} (plain : takeNewline? chunk = none)
    (place : Position) :
    questionOf? place ('\n' :: chunk) = questionOf? (place.advance ['\n']) chunk := by
  have indent : takeIndent ('\n' :: chunk) = ('\n' :: (takeIndent chunk).1, (takeIndent chunk).2) := by
    rw [takeIndent, takeIndent, plain]
    rfl
  rw [questionOf?, questionOf?, indent]
  rfl

theorem plain_of_begins {cs : List Char} (begins : isHeaderStart (skipLineBlanks cs) = true) :
    ∃ c more, cs = c :: more ∧ isNewline c = false := by
  cases cs with
  | nil => cases begins
  | cons c more =>
    refine ⟨c, more, rfl, ?_⟩
    cases blank : isLineBlank c with
    | true =>
      rcases isLineBlank_cases blank with rfl | rfl <;> rfl
    | false =>
      rw [skipLineBlanks, List.dropWhile_cons, blank] at begins
      obtain ⟨behind, same⟩ := isHeaderStart_bracket begins
      rw [(List.cons.inj same).1]
      rfl

/-- A text that begins with a boundary is segmented on its own behind a line feed. -/
theorem questions_lineFeed {a b : String} (ends : a.toList.getLast? ≠ some '\r')
    (begins : isHeaderStart (skipLineBlanks b.toList) = true) :
    questions (a ++ "\n" ++ b) = questions a ++
      (questions b).map (·.shift (a.utf8ByteSize + 1) (a.toList.count '\n' + 1)) := by
  obtain ⟨c, text, split, plain⟩ := plain_of_begins begins
  obtain ⟨chunk, more, inner⟩ := chunks_cons (c == '\r') text
  have cut : chunks false b.toList = (c :: chunk) :: more := by
    rw [split, chunks, inner, isBoundary_plain plain]
    rfl
  have whole : (a ++ "\n" ++ b).toList = a.toList ++ '\n' :: b.toList := by simp
  have place : (({} : Position).advance a.toList).advance ['\n'] =
      ({} : Position).shift (a.utf8ByteSize + 1) (a.toList.count '\n' + 1) := by
    rw [← Position.advance_append, Position.advance_lineFeed, String.ofList_toList]
  have behind : questionsFrom (({} : Position).advance a.toList) (('\n' :: c :: chunk) :: more) =
      questionsFrom ((({} : Position).advance a.toList).advance ['\n']) ((c :: chunk) :: more) := by
    rw [questionsFrom, questionOf?_lineFeed (takeNewline?_plain plain chunk)]
    rfl
  rw [questions, questions, questions, whole, chunks_lineFeed ends begins cut false fun _ => rfl,
    questionsFrom_append, chunks_flatten, behind, place, questionsFrom_shift, cut]

/-- A header that does not close, and text without another boundary. -/
structure Malformed (cs : List Char) : Prop where
  begins : isHeaderStart (skipLineBlanks cs) = true
  runs : takeHeaderLine? (skipLineBlanks cs) = none
  alone : Body cs []

theorem Malformed.questions {m : String} (malformed : Malformed m.toList) : questions m = [] := by
  obtain ⟨c, text, split, plain⟩ := plain_of_begins malformed.begins
  have none : chunkHead? m.toList = none := by
    rw [chunkHead?, split, takeNewline?_plain plain, ← split]
    change headOf? m.toList = none
    rw [headOf?, malformed.runs, Option.map_none, ite_self]
  rw [← questionOf?_head {}, Option.map_eq_none_iff] at none
  have whole := questionsFrom_body malformed.alone {}
  rw [List.append_nil, none] at whole
  exact whole

/-! ### The order of questions -/

theorem takeNewline?_append {cs newline rest : List Char}
    (taken : takeNewline? cs = some (newline, rest)) : newline ++ rest = cs := by
  unfold takeNewline? at taken
  split at taken
  all_goals cases taken
  all_goals rfl

theorem takeIndent_whole (chunk : List Char) :
    (takeIndent chunk).1 ++ (takeIndent chunk).2 = chunk := by
  rw [takeIndent]
  cases taken : takeNewline? chunk with
  | none => exact List.takeWhile_append_dropWhile
  | some read =>
    obtain ⟨newline, rest⟩ := read
    change newline ++ rest.takeWhile isLineBlank ++ rest.dropWhile isLineBlank = chunk
    rw [List.append_assoc, List.takeWhile_append_dropWhile, takeNewline?_append taken]

/-- The span of a question holds something and lies within its chunk. -/
theorem questionOf?_span {place : Position} {chunk : List Char} {q : QuestionText}
    (found : questionOf? place chunk = some q) : place.offset ≤ q.span.start ∧
      q.span.start < q.span.stop ∧ q.span.stop = (place.advance chunk).offset := by
  have whole := takeIndent_whole chunk
  rw [questionOf?] at found
  generalize takeIndent chunk = taken at whole found
  obtain ⟨indent, text⟩ := taken
  obtain rfl : indent ++ text = chunk := whole
  cases begins : isHeaderStart text with
  | false => simp [begins] at found
  | true =>
    obtain ⟨more, rfl⟩ := isHeaderStart_bracket begins
    simp only [begins, Bool.not_true, Bool.false_eq_true, if_false, Option.bind_eq_bind,
      Option.bind_eq_some_iff, Option.pure_def, Option.some.injEq] at found
    obtain ⟨⟨header, body⟩, -, rfl⟩ := found
    have bytes : (String.ofList ('[' :: more)).utf8ByteSize =
        1 + (String.ofList more).utf8ByteSize := by
      rw [← List.singleton_append, String.ofList_append, String.utf8ByteSize_append]
      rfl
    have start := place.offset_advance indent
    have stop := (place.advance indent).offset_advance ('[' :: more)
    rw [bytes] at stop
    simp only [Position.spanTo, Position.advance_append, and_true]
    omega

/-- Questions stand in the order of the text, each behind the end of the one before. -/
theorem questionsFrom_ordered (place : Position) (chunks : List (List Char)) :
    (∀ q ∈ questionsFrom place chunks, place.offset ≤ q.span.start ∧ q.span.start < q.span.stop ∧
      q.span.stop ≤ (place.advance chunks.flatten).offset) ∧
    (questionsFrom place chunks).Pairwise fun q r => q.span.stop ≤ r.span.start := by
  induction chunks generalizing place with
  | nil => exact ⟨fun q member => (List.not_mem_nil member).elim, .nil⟩
  | cons chunk more ih =>
    obtain ⟨inside, ordered⟩ := ih (place.advance chunk)
    have here {q : QuestionText} (member : q ∈ (questionOf? place chunk).toList) :=
      questionOf?_span (Option.mem_toList.1 member)
    have onward : place.offset ≤ (place.advance chunk).offset := by
      rw [Position.offset_advance]
      omega
    have rest : (place.advance chunk).offset ≤
        ((place.advance chunk).advance more.flatten).offset := by
      rw [Position.offset_advance _ more.flatten]
      omega
    rw [questionsFrom, List.flatten_cons, Position.advance_append]
    constructor
    · intro q member
      rcases List.mem_append.1 member with first | later
      · obtain ⟨start, holds, stop⟩ := here first
        omega
      · obtain ⟨start, holds, stop⟩ := inside q later
        omega
    · refine List.pairwise_append.2 ⟨?_, ordered, fun q first r later => ?_⟩
      · cases questionOf? place chunk with
        | none => exact .nil
        | some q => exact List.pairwise_singleton _ q
      · obtain ⟨-, -, stop⟩ := here first
        obtain ⟨start, -⟩ := inside r later
        omega

/-- Segmentation is local and total. Behind a text that does not end in a carriage return and a
line feed, a text that begins with a boundary is segmented as on its own, with its places
shifted. A header in between that never closes is dropped with its body and without any other
question. Every text has exactly one reading by the grammar, which the program finds, and its
questions stand in the order of the text with disjoint spans. -/
theorem questions_segmented {a b : String} (ends : a.toList.getLast? ≠ some '\r')
    (begins : isHeaderStart (skipLineBlanks b.toList) = true) :
    questions (a ++ "\n" ++ b) = questions a ++
      (questions b).map (·.shift (a.utf8ByteSize + 1) (a.toList.count '\n' + 1)) ∧
    (∀ m : String, Malformed m.toList → m.toList.getLast? ≠ some '\r' →
      let front := a ++ "\n" ++ m
      questions front = questions a ∧
      questions (front ++ "\n" ++ b) = questions a ++
        (questions b).map (·.shift (front.utf8ByteSize + 1) (front.toList.count '\n' + 1))) ∧
    ∀ content, (∀ found, Reads content.toList found ↔ questions content = found) ∧
      (∀ q ∈ questions content,
        q.span.start < q.span.stop ∧ q.span.stop ≤ content.utf8ByteSize) ∧
      (questions content).Pairwise fun q r => q.span.stop ≤ r.span.start := by
  refine ⟨questions_lineFeed ends begins, fun m malformed last => ?_, fun content => ?_⟩
  · have dropped : questions (a ++ "\n" ++ m) = questions a := by
      rw [questions_lineFeed ends malformed.begins, malformed.questions, List.map_nil,
        List.append_nil]
    have behind : (a ++ "\n" ++ m).toList.getLast? ≠ some '\r' := by
      obtain ⟨c, text, split, -⟩ := plain_of_begins malformed.begins
      rw [String.toList_append, split, List.getLast?_append, ← split]
      intro same
      rw [Option.or_eq_some_iff] at same
      rcases same with same | ⟨none, -⟩
      · exact last same
      · rw [split] at none
        simp at none
    refine ⟨dropped, ?_⟩
    rw [questions_lineFeed behind begins, dropped]
  · obtain ⟨inside, ordered⟩ := questionsFrom_ordered {} (chunks false content.toList)
    refine ⟨reads_iff content, fun q member => ?_, ordered⟩
    obtain ⟨-, holds, stop⟩ := inside q member
    rw [chunks_flatten, Position.offset_advance, String.ofList_toList] at stop
    exact ⟨holds, by simpa using stop⟩

/-- A header that is still open at the end of its line. -/
def openText : String := "[M, k=(\ntext"

theorem questions_segmented_open :
    let front := "[A]\nx" ++ "\n" ++ openText
    questions front = questions "[A]\nx" ∧
    (questions (front ++ "\n" ++ " [B]")).map (fun q => (q.id, q.span)) =
      [("A", ⟨0, 5, 1, 1⟩), ("B", ⟨20, 23, 5, 2⟩)] := by
  have malformed : Malformed openText.toList :=
    ⟨by decide +kernel, by decide +kernel, body_of_tails (by decide +kernel)⟩
  obtain ⟨-, dropped, -⟩ := questions_segmented (a := "[A]\nx") (b := " [B]") (by decide)
    (by decide +kernel)
  obtain ⟨same, further⟩ := dropped openText malformed (by decide)
  refine ⟨same, ?_⟩
  rw [further]
  decide +kernel

end Definition

end Questionnaire
