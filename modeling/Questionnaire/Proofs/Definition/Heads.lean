import Questionnaire.Definition.BodyReader
import Questionnaire.Proofs.Definition.HeaderLine

/-! The headers of a text, line by line. Segmentation cuts a text in front of every header,
so what it declares can be read off its lines, and texts that end a line can be put in front
of each other without being read differently. -/
namespace Questionnaire.Definition

open Text

/-- The header of a chunk. -/
def chunkHead? (chunk : List Char) : Option Head :=
  headOf? (((takeNewline? chunk).map Prod.snd).getD chunk)

/-- The headers of a text. -/
def lineHeads (cs : List Char) : List Head := (bodyLines false cs).filterMap headOf?

theorem questionOf?_head (start : Position) (chunk : List Char) :
    (questionOf? start chunk).map QuestionText.head = chunkHead? chunk := by
  have indented : (takeIndent chunk).2 =
      skipLineBlanks (((takeNewline? chunk).map Prod.snd).getD chunk) := by
    unfold takeIndent
    cases takeNewline? chunk <;> rfl
  unfold questionOf? chunkHead? headOf?
  rw [← indented]
  obtain ⟨indent, text⟩ := takeIndent chunk
  dsimp only
  cases header : isHeaderStart text with
  | false => simp
  | true => cases takeHeaderLine? text <;> rfl

theorem questionsFrom_heads (start : Position) (chunks : List (List Char)) :
    (questionsFrom start chunks).map QuestionText.head = chunks.filterMap chunkHead? := by
  induction chunks generalizing start with
  | nil => rfl
  | cons chunk more ih =>
    rw [questionsFrom, List.map_append, ih, List.filterMap_cons, ← questionOf?_head start chunk]
    cases questionOf? start chunk <;> rfl

/-- A text without the line feed that belongs to a carriage return in front of it. -/
def behindReturn : Bool → List Char → List Char
  | true, '\n' :: cs => cs
  | _, cs => cs

theorem behindReturn_plain {c : Char} (afterReturn : Bool) (cs : List Char)
    (plain : ¬(c = '\n' ∧ afterReturn = true)) : behindReturn afterReturn (c :: cs) = c :: cs := by
  unfold behindReturn
  split
  · next same => exact absurd ⟨(List.cons.inj same).1, rfl⟩ plain
  · rfl

theorem takeNewline?_newline {c : Char} (newline : isNewline c = true) (cs : List Char) :
    (takeNewline? (c :: cs)).map Prod.snd = some (behindReturn (c == '\r') cs) := by
  rcases isNewline_cases newline with rfl | rfl
  · rfl
  · cases cs with
    | nil => rfl
    | cons d cs =>
      by_cases feed : d = '\n'
      · subst feed
        rfl
      · rw [behindReturn_plain _ _ (fun both => feed both.1)]
        unfold takeNewline?
        split
        · next same => exact absurd (List.cons.inj (List.cons.inj same).2).1 feed
        · next same => rw [(List.cons.inj same).2]; rfl
        · next same => cases (List.cons.inj same).1
        · next other _ => exact absurd rfl (other (d :: cs))

theorem takeNewline?_plain {c : Char} (plain : isNewline c = false) (cs : List Char) :
    takeNewline? (c :: cs) = none := by
  unfold takeNewline?
  split
  · next same => rw [(List.cons.inj same).1] at plain; cases plain
  · next same => rw [(List.cons.inj same).1] at plain; cases plain
  · next same => rw [(List.cons.inj same).1] at plain; cases plain
  · rfl

theorem isBoundary_newline {c : Char} (newline : isNewline c = true) (cs : List Char) :
    isBoundary (c :: cs) = isHeaderStart (skipLineBlanks (behindReturn (c == '\r') cs)) := by
  obtain ⟨⟨taken, rest⟩, found, same⟩ := Option.map_eq_some_iff.1 (takeNewline?_newline newline cs)
  rw [isBoundary, found, ← same]

theorem headOf?_nil : headOf? [] = none := rfl

theorem headOf?_eq_none {cs : List Char} (other : isHeaderStart (skipLineBlanks cs) = false) :
    headOf? cs = none := by
  rw [headOf?, other]
  rfl

/-- A chunk and the line at the beginning of a text, with the chunks and the lines behind
them. -/
structure Aligned (afterReturn : Bool) (cs chunk : List Char) (more : List (List Char))
    (line : List Char) (further : List (List Char)) : Prop where
  ahead : ∃ t, behindReturn afterReturn cs = line ++ t ∧ LineEnd t
  inside : ∃ t, behindReturn afterReturn chunk = line ++ t ∧ LineEnd t
  heads : more.filterMap chunkHead? = further.filterMap headOf?
  head : afterReturn = false → chunkHead? chunk = headOf? line

theorem lineEnd_cons {c : Char} (newline : isNewline c = true) (cs : List Char) :
    LineEnd (c :: cs) := by
  intro d head
  obtain rfl := Option.some.inj head
  exact newline

theorem lineEnd_nil : LineEnd [] := by
  intro c head
  cases head

theorem bodyLines_newline {c : Char} {cs line : List Char} {further : List (List Char)}
    {afterReturn : Bool} (newline : isNewline c = true) (plain : ¬(c = '\n' ∧ afterReturn = true))
    (lines : bodyLines (c == '\r') cs = line :: further) :
    bodyLines afterReturn (c :: cs) = [] :: line :: further := by
  have other : (c == '\n' && afterReturn) = false := by simpa using plain
  rw [bodyLines, other, lines]
  simp [newline]

theorem bodyLines_plain {c : Char} {cs line : List Char} {further : List (List Char)}
    {afterReturn : Bool} (plain : isNewline c = false)
    (lines : bodyLines false cs = line :: further) :
    bodyLines afterReturn (c :: cs) = (c :: line) :: further := by
  have other : (c == '\n') = false ∧ (c == '\r') = false := by
    simpa [isNewline] using plain
  rw [bodyLines, other.1, other.2, lines]
  simp [plain]

theorem chunks_aligned (afterReturn : Bool) (cs : List Char) :
    ∃ chunk more line further, chunks afterReturn cs = chunk :: more ∧
      bodyLines afterReturn cs = line :: further ∧
      Aligned afterReturn cs chunk more line further := by
  induction cs generalizing afterReturn with
  | nil =>
    refine ⟨[], [], [], [], rfl, rfl, ?_⟩
    cases afterReturn <;> exact ⟨⟨[], rfl, lineEnd_nil⟩, ⟨[], rfl, lineEnd_nil⟩, rfl, fun _ => rfl⟩
  | cons c cs ih =>
    obtain ⟨chunk, more, line, further, cut, lines, aligned⟩ := ih (c == '\r')
    obtain ⟨t, ahead, ends⟩ := aligned.ahead
    obtain ⟨u, inside, stops⟩ := aligned.inside
    have whole : chunks afterReturn (c :: cs) =
        if isBoundary (c :: cs) && !(afterReturn && c == '\n') then [] :: (c :: chunk) :: more
        else (c :: chunk) :: more := by
      rw [chunks, cut]
    by_cases joined : c = '\n' ∧ afterReturn = true
    · -- The line feed belongs to the carriage return in front of it.
      obtain ⟨rfl, rfl⟩ := joined
      refine ⟨'\n' :: chunk, more, line, further, by rw [whole]; simp, lines, ?_⟩
      exact ⟨⟨t, ahead, ends⟩, ⟨u, inside, stops⟩, aligned.heads, by simp⟩
    · cases newline : isNewline c with
      | false =>
        have other : (c == '\r') = false := by
          rw [isNewline, Bool.or_eq_false_iff] at newline
          exact newline.2
        rw [other] at ahead inside lines
        have uncut : isBoundary (c :: cs) = false := by
          rw [isBoundary, takeNewline?_plain newline]
        refine ⟨c :: chunk, more, c :: line, further, by rw [whole, uncut]; rfl,
          bodyLines_plain newline lines, ⟨t, ?_, ends⟩, ⟨u, ?_, stops⟩, aligned.heads, fun _ => ?_⟩
        · rw [behindReturn_plain _ _ joined, List.cons_append]
          exact congrArg _ ahead
        · rw [behindReturn_plain _ _ joined, List.cons_append]
          exact congrArg _ inside
        · have same : c :: chunk = (c :: line) ++ u := by
            rw [List.cons_append]
            exact congrArg _ inside
          rw [chunkHead?, takeNewline?_plain newline]
          change headOf? (c :: chunk) = _
          rw [same, headOf?_lineEnd stops]
      | true =>
        have lines := bodyLines_newline newline joined lines
        have starts : isBoundary (c :: cs) = isHeaderStart (skipLineBlanks line) := by
          rw [isBoundary_newline newline, ahead, skipLineBlanks_lineEnd ends,
            isHeaderStart_lineEnd ends]
        have head : chunkHead? (c :: chunk) = headOf? line := by
          rw [chunkHead?, takeNewline?_newline newline, inside, Option.getD_some,
            headOf?_lineEnd stops]
        have uncovered : (afterReturn && c == '\n') = false := by
          rw [Bool.and_comm]
          simpa using joined
        rw [starts, uncovered] at whole
        have front : ∃ t, behindReturn afterReturn (c :: cs) = [] ++ t ∧ LineEnd t :=
          ⟨c :: cs, behindReturn_plain _ _ joined, lineEnd_cons newline cs⟩
        cases header : isHeaderStart (skipLineBlanks line) with
        | true =>
          rw [header] at whole
          refine ⟨[], (c :: chunk) :: more, [], line :: further, whole, lines, front,
            ⟨[], by cases afterReturn <;> rfl, lineEnd_nil⟩, ?_, fun _ => rfl⟩
          rw [List.filterMap_cons, List.filterMap_cons, head, aligned.heads]
        | false =>
          rw [header] at whole
          have none := headOf?_eq_none header
          refine ⟨c :: chunk, more, [], line :: further, whole, lines, front,
            ⟨c :: chunk, behindReturn_plain _ _ joined, lineEnd_cons newline chunk⟩, ?_,
            fun _ => by rw [head, none, headOf?_nil]⟩
          rw [List.filterMap_cons, none, aligned.heads]

/-- Questions are read line by line. -/
theorem questions_heads (cs : List Char) :
    (questions (String.ofList cs)).map QuestionText.head = lineHeads cs := by
  obtain ⟨chunk, more, line, further, cut, lines, aligned⟩ := chunks_aligned false cs
  rw [questions, questionsFrom_heads, String.toList_ofList, cut, lineHeads, lines,
    List.filterMap_cons, List.filterMap_cons, aligned.heads, aligned.head rfl]

/-! ### Texts behind each other -/

theorem bodyLines_cons (afterReturn : Bool) (cs : List Char) :
    ∃ line further, bodyLines afterReturn cs = line :: further := by
  obtain ⟨_, _, line, further, _, lines, _⟩ := chunks_aligned afterReturn cs
  exact ⟨line, further, lines⟩

/-- A text that ends a line keeps its lines, whatever stands behind it. -/
theorem bodyLines_append {cs : List Char} (ends : cs.getLast? = some '\n') (afterReturn : Bool) :
    ∃ ls, (afterReturn = false → ls ≠ []) ∧ bodyLines afterReturn cs = ls ++ [[]] ∧
      ∀ ds, bodyLines afterReturn (cs ++ ds) = ls ++ bodyLines false ds := by
  induction cs generalizing afterReturn with
  | nil => cases ends
  | cons c cs ih =>
    cases cs with
    | nil =>
      obtain rfl : c = '\n' := by simpa using ends
      cases afterReturn with
      | true => exact ⟨[], nofun, rfl, fun ds => rfl⟩
      | false =>
        refine ⟨[[]], fun _ => List.cons_ne_nil _ _, rfl, fun ds => ?_⟩
        obtain ⟨line, further, lines⟩ := bodyLines_cons false ds
        rw [lines]
        exact bodyLines_newline rfl (by simp) lines
    | cons d cs =>
      rw [List.getLast?_cons_cons] at ends
      by_cases joined : c = '\n' ∧ afterReturn = true
      · obtain ⟨rfl, rfl⟩ := joined
        obtain ⟨ls, -, whole, front⟩ := ih ends false
        exact ⟨ls, nofun, whole, front⟩
      · obtain ⟨ls, some, whole, front⟩ := ih ends (c == '\r')
        cases newline : isNewline c with
        | true =>
          refine ⟨[] :: ls, fun _ => List.cons_ne_nil _ _, ?_, fun ds => ?_⟩
          · obtain ⟨line, further, lines⟩ := bodyLines_cons (c == '\r') (d :: cs)
            rw [bodyLines_newline newline joined lines, ← lines, whole]
            rfl
          · obtain ⟨line, further, lines⟩ := bodyLines_cons (c == '\r') (d :: cs ++ ds)
            rw [List.cons_append, bodyLines_newline newline joined lines, ← lines, front]
            rfl
        | false =>
          have other : (c == '\r') = false := by
            rw [isNewline, Bool.or_eq_false_iff] at newline
            exact newline.2
          rw [other] at whole front
          cases ls with
          | nil => exact absurd rfl (some other)
          | cons l ls =>
            refine ⟨(c :: l) :: ls, fun _ => List.cons_ne_nil _ _, bodyLines_plain newline whole,
              fun ds => ?_⟩
            rw [List.cons_append]
            exact bodyLines_plain newline (front ds)

/-- A text that has no unfinished line at its end. -/
def EndsLine (cs : List Char) : Prop := ∀ c ∈ cs.getLast?, c = '\n'

theorem EndsLine.append {cs ds : List Char} (left : EndsLine cs) (right : EndsLine ds) :
    EndsLine (cs ++ ds) := by
  intro c last
  rw [List.getLast?_append] at last
  cases behind : ds.getLast? with
  | none =>
    rw [behind] at last
    exact left c last
  | some d =>
    rw [behind] at last
    obtain rfl := Option.some.inj last
    exact right d behind

theorem lineHeads_append {cs : List Char} (ends : EndsLine cs) (ds : List Char) :
    lineHeads (cs ++ ds) = lineHeads cs ++ lineHeads ds := by
  cases last : cs.getLast? with
  | none =>
    rw [List.getLast?_eq_none_iff] at last
    subst last
    rfl
  | some c =>
    obtain rfl := ends c last
    obtain ⟨ls, -, whole, front⟩ := bodyLines_append last false
    rw [lineHeads, lineHeads, lineHeads, whole, front, List.filterMap_append, List.filterMap_append,
      List.filterMap_cons, headOf?_nil, List.filterMap_nil, List.append_nil]

/-- The headers behind the first line of a text. -/
def furtherHeads (cs : List Char) : List Head := (bodyLines false cs).tail.filterMap headOf?

/-- What stands at the beginning of the first line decides about the first header only. -/
theorem lineHeads_oneLine {cs : List Char} (oneLine : OneLine cs) (ds : List Char) :
    lineHeads (cs ++ ds) = (headOf? (cs ++ ds)).toList ++ furtherHeads ds := by
  obtain ⟨_, _, line, further, -, lines, aligned⟩ := chunks_aligned false ds
  obtain ⟨t, same, ends⟩ := aligned.ahead
  have whole : bodyLines false (cs ++ ds) = (cs ++ line) :: further := by
    clear same aligned
    induction cs with
    | nil => exact lines
    | cons c cs ih =>
      obtain ⟨plain, oneLine⟩ := List.forall_mem_cons.1 oneLine
      exact bodyLines_plain plain (ih oneLine)
  have first : headOf? (cs ++ ds) = headOf? (cs ++ line) := by
    change ds = line ++ t at same
    rw [same, ← List.append_assoc, headOf?_lineEnd ends]
  rw [lineHeads, furtherHeads, whole, lines, first, List.filterMap_cons, List.tail_cons]
  cases headOf? (cs ++ line) <;> rfl

end Questionnaire.Definition
