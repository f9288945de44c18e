import Mathlib.Data.List.Infix
import Questionnaire.Proofs.Definition.Heads

/-! The grammar of definition texts: text in front of the first boundary, and then segments that
each begin at a boundary and reach to the next one. Every text reads so in exactly one way, and no
header and no body reaches across a boundary. -/
namespace Questionnaire

namespace Definition

open Text

/-! ### The grammar -/

/-- A text in which no boundary begins, up to a boundary or to the end. -/
structure Body (body rest : List Char) : Prop where
  inside : ∀ front back, body = front ++ back → back ≠ [] → isBoundary (back ++ rest) = false
  ends : rest ≠ [] → isBoundary rest = true

/-- The line end in front of a segment, which only the first one may lack, and blanks. -/
inductive Indent : List Char → Prop
  | blanks {blanks : List Char} (blank : Blanks blanks) : Indent blanks
  | newline {c : Char} {blanks : List Char} (newline : isNewline c = true)
      (blank : Blanks blanks) : Indent (c :: blanks)
  | both {blanks : List Char} (blank : Blanks blanks) : Indent ('\r' :: '\n' :: blanks)

/-- The questions of segments that stand behind each other from a position on. -/
inductive Segments : Position → List Char → List QuestionText → Prop
  | done {place : Position} : Segments place [] []
  | question {place : Position} {indent line body rest : List Char} {header : Header}
      {questions : List QuestionText} (indented : Indent indent)
      (begins : isHeaderStart (line ++ body ++ rest) = true)
      (closes : takeHeaderLine? (line ++ body ++ rest) = some (header, body ++ rest))
      (reaches : Body body rest)
      (more : Segments (place.advance (indent ++ (line ++ body))) rest questions) :
      Segments place (indent ++ (line ++ body) ++ rest)
        (⟨header.id, header.directives, String.ofList body,
          (place.advance indent).spanTo (place.advance (indent ++ (line ++ body)))⟩ :: questions)
  | malformed {place : Position} {indent text rest : List Char} {questions : List QuestionText}
      (indented : Indent indent) (begins : isHeaderStart (text ++ rest) = true)
      (runs : takeHeaderLine? (text ++ rest) = none) (reaches : Body text rest)
      (more : Segments (place.advance (indent ++ text)) rest questions) :
      Segments place (indent ++ text ++ rest) questions

/-- What a whole text reads as: its segments, behind text that belongs to no question. -/
def Reads (cs : List Char) (questions : List QuestionText) : Prop :=
  ∃ preamble rest, cs = preamble ++ rest ∧
    (preamble = [] ∧ isHeaderStart (skipLineBlanks rest) = true ∨
      isHeaderStart (skipLineBlanks cs) = false ∧ Body preamble rest) ∧
    Segments (({} : Position).advance preamble) rest questions

/-! ### Headers and bodies stay where they are -/

theorem takeQuestionId?_append {cs id rest : List Char}
    (taken : takeQuestionId? cs = some (id, rest)) : cs = id ++ rest := by
  cases cs with
  | nil => cases taken
  | cons c cs =>
    rw [takeQuestionId?] at taken
    split at taken
    · obtain ⟨rfl, rfl⟩ := Prod.mk.inj (Option.some.inj taken)
      simp
    · cases taken

/-- A header that closes does so on its own line. -/
theorem takeHeaderLine?_oneLine {cs rest : List Char} {header : Header}
    (taken : takeHeaderLine? cs = some (header, rest)) : ∃ line, cs = line ++ rest ∧ OneLine line := by
  simp only [takeHeaderLine?, Option.bind_eq_bind, Option.bind_eq_some_iff, Option.pure_def,
    Option.some.injEq, Prod.mk.injEq] at taken
  obtain ⟨opened, opens, ⟨id, more⟩, named, closed, closes, -, rfl⟩ := taken
  have idLine : OneLine id :=
    oneLine_of_holds (fun c member => (takeQuestionId?_shape named).chars c (by simpa using member))
      rfl rfl
  obtain ⟨mark, marked, markLine⟩ : ∃ mark, more = mark ++ (takeMandateMark more).2 ∧
      OneLine mark := by
    unfold takeMandateMark
    split
    · exact ⟨['!'], rfl, oneLine_single rfl⟩
    · exact ⟨['?'], rfl, oneLine_single rfl⟩
    · exact ⟨[], rfl, fun c member => by cases member⟩
  obtain ⟨options, read, text, -⟩ := takeOptions_sound (takeMandateMark more).2
  have blanks := blanks_takeWhile (takeOptions (takeMandateMark more).2).2
  have closing := blanks_append_skip (takeOptions (takeMandateMark more).2).2
  rw [stripLeading?_eq_some_iff.1 closes] at closing
  have front : OneLine ('[' :: id) := (oneLine_single rfl).append idLine
  refine ⟨'[' :: id ++ mark ++ options ++
    (takeOptions (takeMandateMark more).2).2.takeWhile isLineBlank ++ [']'], ?_,
    (((front.append markLine).append text.oneLine).append blanks.oneLine).append
      (oneLine_single rfl)⟩
  calc cs
      = '[' :: opened := stripLeading?_eq_some_iff.1 opens
    _ = '[' :: (id ++ more) := by rw [takeQuestionId?_append named]
    _ = '[' :: (id ++ (mark ++ (takeMandateMark more).2)) := by rw [← marked]
    _ = '[' :: (id ++ (mark ++ (options ++ ((takeOptions (takeMandateMark more).2).2.takeWhile
          isLineBlank ++ (']' :: closed))))) :=
        congrArg (fun rest => '[' :: (id ++ (mark ++ rest)))
          (read.trans (congrArg (options ++ ·) closing.symm))
    _ = _ := by simp

theorem isBoundary_plain {c : Char} (plain : isNewline c = false) (cs : List Char) :
    isBoundary (c :: cs) = false := by
  rw [isBoundary, takeNewline?_plain plain]

namespace Body
variable {body rest : List Char}

/-- What follows begins a line, if there is anything. -/
theorem lineEnd (reaches : Body body rest) : LineEnd rest := by
  cases rest with
  | nil => exact lineEnd_nil
  | cons c rest =>
    have boundary := reaches.ends (List.cons_ne_nil _ _)
    cases newline : isNewline c with
    | true => exact lineEnd_cons newline rest
    | false => exact absurd (boundary.symm.trans (isBoundary_plain newline rest)) (by decide)

theorem tail {c : Char} (reaches : Body (c :: body) rest) : Body body rest where
  inside front back split := reaches.inside (c :: front) back (congrArg (c :: ·) split)
  ends := reaches.ends

theorem prepend {line : List Char} (reaches : Body body rest) (oneLine : OneLine line) :
    Body (line ++ body) rest where
  ends := reaches.ends
  inside front back split some := by
    induction line generalizing front with
    | nil => exact reaches.inside front back split some
    | cons c line ih =>
      obtain ⟨plain, oneLine⟩ := List.forall_mem_cons.1 oneLine
      cases front with
      | nil =>
        obtain rfl := split
        exact isBoundary_plain plain (line ++ body ++ rest)
      | cons d front => exact ih oneLine front (List.cons.inj split).2

end Body

theorem body_of_tails {cs : List Char} (plain : ∀ back ∈ cs.tails, isBoundary back = false) :
    Body cs [] where
  inside front back split _ := by
    rw [List.append_nil]
    exact plain back ((List.mem_tails back cs).2 ⟨front, split.symm⟩)
  ends some := absurd rfl some

/-- Every text reaches to its first boundary. -/
theorem exists_body (cs : List Char) : ∃ body rest, cs = body ++ rest ∧ Body body rest := by
  induction cs with
  | nil =>
    refine ⟨[], [], rfl, ⟨fun front back split some => ?_, fun some => absurd rfl some⟩⟩
    exact absurd (List.append_eq_nil_iff.1 split.symm).2 some
  | cons c cs ih =>
    cases boundary : isBoundary (c :: cs) with
    | true =>
      refine ⟨[], c :: cs, rfl, ⟨fun front back split some => ?_, fun _ => boundary⟩⟩
      exact absurd (List.append_eq_nil_iff.1 split.symm).2 some
    | false =>
      obtain ⟨body, rest, rfl, reaches⟩ := ih
      refine ⟨c :: body, rest, rfl, ⟨fun front back split some => ?_, reaches.ends⟩⟩
      cases front with
      | nil =>
        obtain rfl := split
        exact boundary
      | cons d front => exact reaches.inside front back (List.cons.inj split).2 some

/-! ### Chunks are segments -/

theorem chunks_cons (afterReturn : Bool) (cs : List Char) :
    ∃ chunk more, chunks afterReturn cs = chunk :: more := by
  obtain ⟨chunk, more, _, _, cut, _⟩ := chunks_aligned afterReturn cs
  exact ⟨chunk, more, cut⟩

/-- Cutting goes on behind the first boundary of a text as it would begin there. -/
theorem chunks_body {body rest : List Char} (reaches : Body body rest) (afterReturn : Bool)
    (apart : body = [] → afterReturn = true → rest.head? ≠ some '\n') :
    chunks afterReturn (body ++ rest) = body :: (chunks false rest).tail := by
  induction body generalizing afterReturn with
  | nil =>
    cases rest with
    | nil => rfl
    | cons c rest =>
      obtain ⟨chunk, more, cut⟩ := chunks_cons (c == '\r') rest
      have boundary := reaches.ends (List.cons_ne_nil _ _)
      have uncovered : (afterReturn && c == '\n') = false := by
        cases afterReturn with
        | false => rfl
        | true => simpa using apart rfl rfl
      rw [List.nil_append, chunks, chunks, cut, boundary, uncovered]
      rfl
  | cons c body ih =>
    have uncut := reaches.inside [] (c :: body) rfl (List.cons_ne_nil _ _)
    have behind : body = [] → (c == '\r') = true → rest.head? ≠ some '\n' := by
      -- Otherwise the line end of the boundary would begin one character earlier.
      rintro rfl carriage feed
      obtain rfl := eq_of_beq carriage
      obtain ⟨rest, rfl⟩ := List.head?_eq_some_iff.1 feed
      have boundary := reaches.ends (List.cons_ne_nil _ _)
      have earlier : isBoundary ('\r' :: '\n' :: rest) = true := boundary
      exact absurd (earlier.symm.trans uncut) (by decide)
    rw [List.cons_append, chunks, ih reaches.tail _ behind]
    rw [List.cons_append] at uncut
    simp [uncut]

theorem isHeaderStart_bracket {cs : List Char} (begins : isHeaderStart cs = true) :
    ∃ more, cs = '[' :: more := by
  rw [isHeaderStart] at begins
  cases opened : stripLeading? ['['] cs with
  | none => rw [opened] at begins; cases begins
  | some more => exact ⟨more, stripLeading?_eq_some_iff.1 opened⟩

theorem bracket_unblank (cs : List Char) : ∀ c ∈ ('[' :: cs).head?, isLineBlank c = false := by
  intro c head
  obtain rfl := Option.some.inj head
  rfl

theorem behindReturn_bracket {blanks cs : List Char} (blank : Blanks blanks) (afterReturn : Bool) :
    behindReturn afterReturn (blanks ++ '[' :: cs) = blanks ++ '[' :: cs := by
  cases blanks with
  | nil => exact behindReturn_plain _ _ (by simp)
  | cons c blanks =>
    have plain := blank.oneLine c (by simp)
    exact behindReturn_plain _ _ fun both => ne_of_holds (p := fun c => isNewline c) rfl plain both.1.symm

theorem takeNewline?_return {cs : List Char} (plain : cs.head? ≠ some '\n') :
    takeNewline? ('\r' :: cs) = some (['\r'], cs) := by
  unfold takeNewline?
  split
  · next same => exact absurd (congrArg List.head? (List.cons.inj same).2) plain
  · next same => rw [(List.cons.inj same).2]
  · next same => cases (List.cons.inj same).1
  · next other _ => exact absurd rfl (other cs)

/-- What stands in front of a segment is taken as its indent. -/
theorem takeIndent_append {indent cs : List Char} (indented : Indent indent) :
    takeIndent (indent ++ '[' :: cs) = (indent, '[' :: cs) := by
  have inner {blanks : List Char} (blank : Blanks blanks) :
      (blanks ++ '[' :: cs).takeWhile isLineBlank = blanks ∧
        (blanks ++ '[' :: cs).dropWhile isLineBlank = '[' :: cs := by
    constructor
    · rw [List.takeWhile_append_of_pos blank]
      exact List.append_nil _
    · exact skipLineBlanks_append blank (bracket_unblank cs)
  cases indented with
  | blanks blank =>
    have none : takeNewline? (indent ++ '[' :: cs) = none := by
      cases indent with
      | nil => rfl
      | cons c indent => exact takeNewline?_plain (blank.oneLine c (by simp)) _
    rw [takeIndent, none]
    exact Prod.ext (inner blank).1 (inner blank).2
  | @newline c blanks newline blank =>
    have found : takeNewline? (c :: (blanks ++ '[' :: cs)) = some ([c], blanks ++ '[' :: cs) := by
      rcases isNewline_cases newline with rfl | rfl
      · rfl
      · apply takeNewline?_return
        cases blanks with
        | nil => simp
        | cons d blanks =>
          have plain := blank.oneLine d (by simp)
          rintro same
          obtain rfl := Option.some.inj same
          cases plain
    rw [takeIndent, List.cons_append, found]
    exact Prod.ext (congrArg (c :: ·) (inner blank).1) (inner blank).2
  | @both blanks blank =>
    have found : takeNewline? ('\r' :: '\n' :: (blanks ++ '[' :: cs)) =
        some (['\r', '\n'], blanks ++ '[' :: cs) := rfl
    rw [takeIndent, List.cons_append, List.cons_append, found]
    exact Prod.ext (congrArg ('\r' :: '\n' :: ·) (inner blank).1) (inner blank).2

theorem questionOf?_indent {indent text : List Char} (place : Position) (indented : Indent indent)
    (begins : isHeaderStart text = true) : questionOf? place (indent ++ text) =
      (takeHeaderLine? text).map fun (header, body) =>
        ⟨header.id, header.directives, String.ofList body,
          (place.advance indent).spanTo (place.advance (indent ++ text))⟩ := by
  obtain ⟨more, rfl⟩ := isHeaderStart_bracket begins
  rw [questionOf?, takeIndent_append indented]
  simp only [begins, Position.advance_append]
  cases takeHeaderLine? ('[' :: more) <;> rfl

theorem isBoundary_bracket {c : Char} {cs blanks more : List Char} (newline : isNewline c = true)
    (behind : behindReturn (c == '\r') cs = blanks ++ '[' :: more) (blank : Blanks blanks)
    (begins : isHeaderStart ('[' :: more) = true) : isBoundary (c :: cs) = true := by
  rw [isBoundary_newline newline, behind, skipLineBlanks_append blank (bracket_unblank more)]
  exact begins

theorem questionsFrom_front {place : Position} {chunk : List Char} {more : List (List Char)} :
    questionsFrom place ([] :: chunk :: more) = (questionOf? place chunk).toList ++
      questionsFrom (place.advance chunk) more := rfl

/-- The chunks of a text behind a body say the same as its own. -/
theorem questionsFrom_tail {body rest : List Char} (reaches : Body body rest) (place : Position) :
    questionsFrom place (chunks false rest).tail = questionsFrom place (chunks false rest) := by
  cases rest with
  | nil => rfl
  | cons c rest =>
    obtain ⟨chunk, more, cut⟩ := chunks_cons (c == '\r') rest
    rw [chunks, cut, reaches.ends (List.cons_ne_nil _ _)]
    rfl

theorem questionsFrom_body {body rest : List Char} (reaches : Body body rest) (place : Position) :
    questionsFrom place (chunks false (body ++ rest)) = (questionOf? place body).toList ++
      questionsFrom (place.advance body) (chunks false rest) := by
  rw [chunks_body reaches false nofun, questionsFrom, questionsFrom_tail reaches]

/-- A segment is a chunk of its own, with the line end in front of it. -/
theorem questionsFrom_segment {indent text rest : List Char} (indented : Indent indent)
    (begins : isHeaderStart text = true) (reaches : Body text rest) (place : Position) :
    questionsFrom place (chunks false (indent ++ text ++ rest)) =
      (questionOf? place (indent ++ text)).toList ++
        questionsFrom (place.advance (indent ++ text)) (chunks false rest) := by
  have starts : isHeaderStart (text ++ rest) = true := by
    rw [isHeaderStart_lineEnd reaches.lineEnd]
    exact begins
  obtain ⟨more, rfl⟩ := isHeaderStart_bracket begins
  have inner {blanks : List Char} (blank : Blanks blanks) (afterReturn : Bool) :
      chunks afterReturn (blanks ++ '[' :: more ++ rest) =
        (blanks ++ '[' :: more) :: (chunks false rest).tail :=
    chunks_body (reaches.prepend blank.oneLine) afterReturn fun empty => by simp at empty
  have split (blanks : List Char) :
      blanks ++ '[' :: more ++ rest = blanks ++ '[' :: (more ++ rest) := by simp
  cases indented with
  | blanks blank => exact questionsFrom_body (reaches.prepend blank.oneLine) place
  | @newline c blanks newline blank =>
    have boundary : isBoundary (c :: (blanks ++ '[' :: more ++ rest)) = true := by
      rw [split]
      exact isBoundary_bracket newline (behindReturn_bracket blank _) blank starts
    have cut : chunks false (c :: (blanks ++ '[' :: more ++ rest)) =
        [] :: (c :: (blanks ++ '[' :: more)) :: (chunks false rest).tail := by
      rw [chunks, inner blank, boundary]
      rfl
    rw [← questionsFrom_tail reaches, ← questionsFrom_front]
    exact congrArg (questionsFrom place) cut
  | @both blanks blank =>
    have boundary : isBoundary ('\r' :: '\n' :: (blanks ++ '[' :: more ++ rest)) = true := by
      rw [split]
      exact isBoundary_bracket rfl rfl blank starts
    have feed : chunks true ('\n' :: (blanks ++ '[' :: more ++ rest)) =
        ('\n' :: (blanks ++ '[' :: more)) :: (chunks false rest).tail := by
      rw [chunks, inner blank]
      simp
    have cut : chunks false ('\r' :: '\n' :: (blanks ++ '[' :: more ++ rest)) =
        [] :: ('\r' :: '\n' :: (blanks ++ '[' :: more)) :: (chunks false rest).tail := by
      rw [chunks, show ('\r' == '\r') = true from rfl, feed, boundary]
      rfl
    rw [← questionsFrom_tail reaches, ← questionsFrom_front]
    exact congrArg (questionsFrom place) cut

/-! ### Every text reads in one way -/

/-- The program finds the questions of the segments. -/
theorem Segments.sound {place : Position} {cs : List Char} {found : List QuestionText}
    (segments : Segments place cs found) : questionsFrom place (chunks false cs) = found := by
  induction segments with
  | done => rfl
  | @question place indent line body rest header questions indented begins closes reaches more ih =>
    obtain ⟨line', split, oneLine⟩ := takeHeaderLine?_oneLine closes
    obtain rfl : line = line' := by
      rw [List.append_assoc] at split
      exact List.append_cancel_right split
    have within : Body (line ++ body) rest := reaches.prepend oneLine
    rw [isHeaderStart_lineEnd within.lineEnd] at begins
    have read : takeHeaderLine? (line ++ body) = some (header, body) := by
      rw [takeHeaderLine?_lineEnd within.lineEnd, Option.map_eq_some_iff] at closes
      obtain ⟨⟨other, behind⟩, taken, same⟩ := closes
      simp only [Prod.mk.injEq, List.append_cancel_right_eq] at same
      obtain ⟨rfl, rfl⟩ := same
      exact taken
    rw [questionsFrom_segment indented begins within, questionOf?_indent place indented begins,
      read, ih]
    rfl
  | @malformed place indent text rest questions indented begins runs reaches more ih =>
    rw [isHeaderStart_lineEnd reaches.lineEnd] at begins
    have open' : takeHeaderLine? text = none := by
      rw [takeHeaderLine?_lineEnd reaches.lineEnd] at runs
      exact Option.map_eq_none_iff.1 runs
    rw [questionsFrom_segment indented begins reaches, questionOf?_indent place indented begins,
      open', ih]
    rfl

/-- Where a boundary begins, or a text with a header in front of everything, there is a segment. -/
theorem exists_indent {cs : List Char}
    (begins : isBoundary cs = true ∨ isHeaderStart (skipLineBlanks cs) = true) :
    ∃ indent text, cs = indent ++ text ∧ Indent indent ∧ isHeaderStart text = true := by
  have blanks := blanks_takeWhile cs
  rcases begins with boundary | starts
  · cases cs with
    | nil => cases boundary
    | cons c cs =>
      cases newline : isNewline c with
      | false => exact absurd (boundary.symm.trans (isBoundary_plain newline cs)) (by decide)
      | true =>
        rw [isBoundary_newline newline] at boundary
        by_cases joined : c = '\r' ∧ cs.head? = some '\n'
        · obtain ⟨rfl, feed⟩ := joined
          obtain ⟨cs, rfl⟩ := List.head?_eq_some_iff.1 feed
          refine ⟨'\r' :: '\n' :: cs.takeWhile isLineBlank, skipLineBlanks cs, ?_,
            .both (blanks_takeWhile cs), boundary⟩
          rw [List.cons_append, List.cons_append, blanks_append_skip]
        · have plain : behindReturn (c == '\r') cs = cs := by
            cases cs with
            | nil => cases (c == '\r') <;> rfl
            | cons d cs =>
              apply behindReturn_plain
              rintro ⟨rfl, carriage⟩
              exact joined ⟨eq_of_beq carriage, rfl⟩
          rw [plain] at boundary
          refine ⟨c :: cs.takeWhile isLineBlank, skipLineBlanks cs, ?_,
            .newline newline (blanks_takeWhile cs), boundary⟩
          rw [List.cons_append, blanks_append_skip]
  · exact ⟨_, _, (blanks_append_skip cs).symm, .blanks blanks, starts⟩

theorem Body.ne_nil {text rest : List Char} (reaches : Body text rest)
    (begins : isHeaderStart (text ++ rest) = true) : text ≠ [] := by
  rintro rfl
  obtain ⟨more, rfl⟩ := isHeaderStart_bracket begins
  exact absurd ((reaches.ends (List.cons_ne_nil _ _)).symm.trans (isBoundary_plain rfl more))
    (by decide)

/-- Segments go on until nothing is left. -/
theorem exists_segments (place : Position) (cs : List Char) (begins : cs ≠ [] →
    isBoundary cs = true ∨ isHeaderStart (skipLineBlanks cs) = true) :
    ∃ found, Segments place cs found := by
  induction size : cs.length using Nat.strongRecOn generalizing place cs with
  | _ n ih =>
    subst size
    by_cases done : cs = []
    · subst done
      exact ⟨[], .done⟩
    obtain ⟨indent, text, rfl, indented, begins⟩ := exists_indent (begins done)
    have further {body rest : List Char} (reaches : Body body rest)
        (shorter : rest.length < text.length) (place : Position) :
        ∃ found, Segments place rest found :=
      ih rest.length (by rw [List.length_append]; omega) place rest
        (fun some => .inl (reaches.ends some)) rfl
    cases taken : takeHeaderLine? text with
    | none =>
      obtain ⟨text, rest, rfl, reaches⟩ := exists_body text
      have shorter := List.length_pos_iff.2 (reaches.ne_nil begins)
      obtain ⟨found, more⟩ := further reaches (by rw [List.length_append]; omega)
        (place.advance (indent ++ text))
      rw [← List.append_assoc]
      exact ⟨found, .malformed indented begins taken reaches more⟩
    | some read =>
      obtain ⟨header, behind⟩ := read
      obtain ⟨line, rfl, oneLine⟩ := takeHeaderLine?_oneLine taken
      obtain ⟨body, rest, rfl, reaches⟩ := exists_body behind
      have whole : Body (line ++ body) rest := reaches.prepend oneLine
      rw [← List.append_assoc] at begins taken further
      have shorter := List.length_pos_iff.2 (whole.ne_nil begins)
      obtain ⟨found, more⟩ := further reaches (by simp only [List.length_append] at *; omega)
        (place.advance (indent ++ (line ++ body)))
      rw [← List.append_assoc line, ← List.append_assoc indent]
      exact ⟨_, .question indented begins taken reaches more⟩

/-- A boundary is the same with other lines behind it. -/
theorem isBoundary_lineEnd {cs t : List Char} (lineEnd : LineEnd t) (some : cs ≠ [])
    (apart : cs ≠ ['\r']) : isBoundary (cs ++ t) = isBoundary cs := by
  cases cs with
  | nil => exact absurd rfl some
  | cons c cs =>
    cases newline : isNewline c with
    | false => rw [List.cons_append, isBoundary_plain newline, isBoundary_plain newline]
    | true =>
      have behind : behindReturn (c == '\r') (cs ++ t) = behindReturn (c == '\r') cs ++ t := by
        cases cs with
        | cons d cs =>
          by_cases joined : d = '\n' ∧ (c == '\r') = true
          · obtain ⟨rfl, carriage⟩ := joined
            rw [carriage]
            rfl
          · rw [List.cons_append, behindReturn_plain _ _ joined, behindReturn_plain _ _ joined,
              List.cons_append]
        | nil =>
          have feed : (c == '\r') = false := by
            apply beq_eq_false_iff_ne.2
            rintro rfl
            exact apart rfl
          rw [feed]
          rfl
      rw [List.cons_append, isBoundary_newline newline, isBoundary_newline newline, behind,
        skipLineBlanks_lineEnd lineEnd, isHeaderStart_lineEnd lineEnd]

/-- There is no question in front of the first boundary. -/
theorem questionOf?_preamble {preamble rest : List Char} (reaches : Body preamble rest)
    (other : isHeaderStart (skipLineBlanks (preamble ++ rest)) = false) (place : Position) :
    questionOf? place preamble = none := by
  suffices none : chunkHead? preamble = none by
    rw [← questionOf?_head place] at none
    exact Option.map_eq_none_iff.1 none
  rw [skipLineBlanks_lineEnd reaches.lineEnd, isHeaderStart_lineEnd reaches.lineEnd] at other
  cases preamble with
  | nil => rfl
  | cons c cs =>
    cases newline : isNewline c with
    | false =>
      rw [chunkHead?, takeNewline?_plain newline]
      exact headOf?_eq_none other
    | true =>
      by_cases alone : c :: cs = ['\r']
      · rw [alone]
        rfl
      · have within := reaches.inside [] (c :: cs) rfl (List.cons_ne_nil _ _)
        rw [isBoundary_lineEnd reaches.lineEnd (List.cons_ne_nil _ _) alone,
          isBoundary_newline newline] at within
        rw [chunkHead?, takeNewline?_newline newline]
        exact headOf?_eq_none within

/-- Every text reads as one list of questions, and this is what the program finds. -/
theorem reads_iff (content : String) (found : List QuestionText) :
    Reads content.toList found ↔ questions content = found := by
  have sound {found : List QuestionText} (reads : Reads content.toList found) :
      questions content = found := by
    obtain ⟨preamble, rest, split, ⟨rfl, -⟩ | ⟨other, reaches⟩, segments⟩ := reads
    · rw [questions, split]
      exact segments.sound
    · rw [split] at other
      rw [questions, split, questionsFrom_body reaches, questionOf?_preamble reaches other,
        segments.sound]
      rfl
  have reads : ∃ found, Reads content.toList found := by
    cases begins : isHeaderStart (skipLineBlanks content.toList) with
    | true =>
      obtain ⟨found, segments⟩ := exists_segments {} content.toList fun _ => .inr begins
      exact ⟨found, [], _, rfl, .inl ⟨rfl, begins⟩, segments⟩
    | false =>
      obtain ⟨preamble, rest, split, reaches⟩ := exists_body content.toList
      obtain ⟨found, segments⟩ := exists_segments (({} : Position).advance preamble) rest
        fun some => .inl (reaches.ends some)
      exact ⟨found, preamble, rest, split, .inr ⟨begins, reaches⟩, segments⟩
  constructor
  · exact sound
  · rintro rfl
    obtain ⟨found, reads⟩ := reads
    rwa [sound reads]

end Definition

end Questionnaire
