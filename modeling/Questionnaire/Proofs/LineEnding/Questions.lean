import Questionnaire.Proofs.Definition.GridHeader
import Questionnaire.Proofs.Definition.Segments
import Questionnaire.Proofs.Definition.Table
import Questionnaire.Proofs.LineEnding.Pieces

/-! Questions of texts that differ in carriage returns in front of line feeds. While no grid block
spans lines the tables are the same; the texts are cut into questions at the same headers, and the
bodies have the same lines. -/
namespace Questionnaire

/-- Questions that differ in spans and in returns in the body. -/
structure QuestionText.Alike (p q : QuestionText) : Prop where
  id : q.id = p.id
  directives : q.directives = p.directives
  body : Definition.Returns p.body.toList q.body.toList

namespace Definition

open Text

/-! ### Tables -/

theorem splitTopLevel_subset {depth : Nat} {piece cs : List Char}
    (member : piece ∈ splitTopLevel depth cs) : piece ⊆ cs := by
  induction cs generalizing depth piece with
  | nil =>
    obtain rfl := List.mem_singleton.1 member
    exact List.Subset.refl _
  | cons c cs ih =>
    have later {depth : Nat} {piece : List Char} (inside : piece ∈ splitTopLevel depth cs) :
        piece ⊆ c :: cs := List.Subset.trans (ih inside) (List.subset_cons_self c cs)
    by_cases comma : c = ',' ∧ depth = 0
    · obtain ⟨rfl, rfl⟩ := comma
      rw [splitTopLevel_comma] at member
      rcases List.mem_cons.1 member with rfl | behind
      · exact List.nil_subset _
      · exact later behind
    · obtain ⟨first, more, split⟩ := splitTopLevel_cons (depthBehind depth c) cs
      rw [splitTopLevel_inside comma split] at member
      rcases List.mem_cons.1 member with rfl | behind
      · exact List.cons_subset_cons c (ih (by rw [split]; exact List.mem_cons_self))
      · exact later (by rw [split]; exact List.mem_cons_of_mem _ behind)

theorem takeMandate_subset (args : List Char) : (takeMandate args).2 ⊆ args := by
  intro x member
  apply mem_of_mem_trimChars
  unfold takeMandate at member
  split at member
  · next c rest same =>
    rw [same]
    split at member
    · exact List.mem_cons_of_mem c ((List.dropWhile_sublist _).subset member)
    · exact member
  · cases member

theorem gridOptions_subset {c : Char} {args : List Char} (member : c ∈ gridOptions args) :
    c ∈ ",grid".toList ∨ c ∈ args := by
  rcases List.mem_append.1 member with keyword | option
  · exact .inl keyword
  · obtain ⟨item, inside, char⟩ := List.mem_flatMap.1 option
    rcases List.mem_cons.1 char with rfl | char
    · exact .inl (by decide)
    · obtain ⟨piece, split, rfl⟩ := List.mem_map.1 (List.mem_of_mem_filter inside)
      exact .inr (takeMandate_subset args (splitTopLevel_subset split (mem_of_mem_trimChars char)))

theorem placeholder_plain {b : GridBlock} (shape : b.WellFormed) (plain : '\r' ∉ b.args) :
    '\r' ∉ placeholder b := by
  have oneLine {cs : List Char} (oneLine : OneLine cs) : '\r' ∉ cs := fun member => by
    cases oneLine _ member
  have options : '\r' ∉ gridOptions b.args := fun member =>
    (gridOptions_subset member).elim (by decide) plain
  have mark := oneLine (GridBlock.isMark_takeMandate b.args).oneLine
  rw [placeholder_eq]
  simp [oneLine (oneLine_id shape.id), mark, options]

/-- What is left of texts without their grids. -/
structure Grids.Alike (g h : Grids) : Prop where
  content : Returns g.content h.content
  tables : h.tables = g.tables

theorem extractPieces_alike {sourceId : String} {ps qs : List Piece}
    (related : List.Forall₂ Piece.Alike ps qs) (inLines : ∀ b, .grid b ∈ ps → '\n' ∉ b.toChars)
    (start start' : Position) (tables : Dict GridTable) : Together Grids.Alike
      (extractPieces sourceId start tables ps) (extractPieces sourceId start' tables qs) := by
  induction related generalizing start start' tables with
  | nil => exact .succeed ⟨.nil, rfl⟩
  | @cons p q ps qs first _ ih =>
    have later := ih fun b member => inLines b (List.mem_cons_of_mem p member)
    cases first with
    | plain returns =>
      refine (later _ _ tables).bind fun g h alike => ?_
      exact .succeed ⟨returns.append alike.content, alike.tables⟩
    | @grid b c shape alike =>
      obtain rfl := alike.eq (inLines b List.mem_cons_self)
      have header : Returns (placeholder c) (placeholder c) :=
        .refl (placeholder_plain shape alike.args.plain)
      cases read : readTable c with
      | error fault =>
        simp only [extractPieces, read]
        exact .fail
      | ok table =>
        simp only [extractPieces, read]
        refine (later _ _ _).bind fun g h alike => ?_
        exact .succeed ⟨header.append alike.content, alike.tables⟩

theorem extractGrids_alike {sourceId left right : String}
    (returns : Returns left.toList right.toList) (inLines : BlocksInLines left.toList) :
    Together Grids.Alike (extractGrids sourceId left) (extractGrids sourceId right) := by
  refine extractPieces_alike returns.pieces (fun b member => inLines b ?_) _ _ _
  exact List.mem_filterMap.2 ⟨_, member, rfl⟩

/-! ### Headers -/

namespace Returns
variable {l d : List Char}

theorem isHeaderStart (returns : Returns l d) :
    Definition.isHeaderStart d = Definition.isHeaderStart l := by
  obtain ⟨x, t, u, rfl, rfl, -, -, left, right⟩ := returns.line
  rw [isHeaderStart_lineEnd left, isHeaderStart_lineEnd right]

theorem takeHeaderLine? (returns : Returns l d) :
    Option.Rel ReadsSame (Definition.takeHeaderLine? l) (Definition.takeHeaderLine? d) := by
  obtain ⟨x, t, u, rfl, rfl, oneLine, related, left, right⟩ := returns.line
  rw [takeHeaderLine?_lineEnd left, takeHeaderLine?_lineEnd right]
  cases taken : Definition.takeHeaderLine? x with
  | none => exact .none
  | some read =>
    obtain ⟨header, rest⟩ := read
    obtain ⟨line, rfl, -⟩ := takeHeaderLine?_oneLine taken
    have behind : Returns rest rest := .refl fun member => by
      cases oneLine _ (List.mem_append_right _ member)
    exact .some ⟨rfl, behind.append related⟩

theorem takeIndent (returns : Returns l d) :
    Returns (Definition.takeIndent l).2 (Definition.takeIndent d).2 := by
  have skip {l d : List Char} (returns : Returns l d) :
      Returns (l.dropWhile isLineBlank) (d.dropWhile isLineBlank) := returns.dropWhile rfl
  cases returns with
  | nil => exact .nil
  | feed rest => exact skip rest
  | @same c l d plain rest =>
    cases newline : isNewline c with
    | true =>
      obtain rfl := (isNewline_cases newline).resolve_right plain
      exact skip rest
    | false =>
      have unmarked (cs : List Char) : (Definition.takeIndent (c :: cs)).2 =
          (c :: cs).dropWhile isLineBlank := by
        rw [Definition.takeIndent, takeNewline?_plain newline]
        rfl
      rw [unmarked, unmarked]
      exact skip (.same plain rest)

/-! ### Questions -/

theorem chunks (returns : Returns l d) :
    List.Forall₂ Returns (Definition.chunks false l) (Definition.chunks false d) := by
  -- A line feed begins a chunk exactly if its line begins with a header.
  have boundary {l d : List Char} (rest : Returns l d) :
      Definition.isHeaderStart (skipLineBlanks d) = Definition.isHeaderStart (skipLineBlanks l) :=
    Returns.isHeaderStart (rest.dropWhile rfl)
  induction returns with
  | nil => exact .cons .nil .nil
  | @same c l d plain rest ih =>
    have back : (c == '\r') = false := beq_eq_false_iff_ne.2 plain
    have starts : isBoundary (c :: d) = isBoundary (c :: l) := by
      cases newline : isNewline c with
      | true =>
        obtain rfl := (isNewline_cases newline).resolve_right plain
        exact boundary rest
      | false => rw [isBoundary_plain newline, isBoundary_plain newline]
    rw [Definition.chunks, Definition.chunks, back, starts]
    generalize Definition.chunks false l = ls, Definition.chunks false d = ds at ih ⊢
    cases ih with
    | nil => exact .cons (.same plain .nil) .nil
    | cons first more =>
      simp only
      split
      · exact .cons .nil (.cons (.same plain first) more)
      · exact .cons (.same plain first) more
  | @feed l d rest ih =>
    have starts : isBoundary ('\r' :: '\n' :: d) = isBoundary ('\n' :: l) := boundary rest
    obtain ⟨chunk, more, cut⟩ := chunks_cons false d
    have joined : Definition.chunks true ('\n' :: d) = ('\n' :: chunk) :: more := by
      rw [Definition.chunks, show (('\n' : Char) == '\r') = false from rfl, cut]
      simp
    rw [Definition.chunks, Definition.chunks, show (('\n' : Char) == '\r') = false from rfl,
      show (('\r' : Char) == '\r') = true from rfl, joined, starts]
    rw [cut] at ih
    generalize Definition.chunks false l = ls at ih ⊢
    cases ih with
    | cons first more =>
      simp only [Bool.false_and, Bool.not_false, Bool.and_true]
      split
      · exact .cons .nil (.cons (.feed first) more)
      · exact .cons (.feed first) more

theorem questionOf? (returns : Returns l d) (start start' : Position) :
    Option.Rel QuestionText.Alike (Definition.questionOf? start l)
      (Definition.questionOf? start' d) := by
  have indented := returns.takeIndent
  rw [Definition.questionOf?, Definition.questionOf?]
  generalize Definition.takeIndent l = a, Definition.takeIndent d = b at indented ⊢
  obtain ⟨indent, text⟩ := a
  obtain ⟨indent', text'⟩ := b
  have header : Returns text text' := indented
  simp only [header.isHeaderStart]
  cases Definition.isHeaderStart text with
  | false => exact .none
  | true =>
    refine rel_bind header.takeHeaderLine? ?_
    rintro ⟨header, body⟩ ⟨_, body'⟩ ⟨rfl, behind⟩
    exact .some ⟨rfl, rfl, by simpa using behind⟩

theorem bodyLines (returns : Returns l d) :
    Definition.bodyLines false d = Definition.bodyLines false l := by
  induction returns with
  | nil => rfl
  | @same c l d plain rest ih =>
    have back : (c == '\r') = false := beq_eq_false_iff_ne.2 plain
    rw [Definition.bodyLines, Definition.bodyLines, back, ih]
  | @feed l d rest ih =>
    obtain ⟨line, further, lines⟩ := bodyLines_cons false l
    rw [lines] at ih
    have joined : Definition.bodyLines true ('\n' :: d) = line :: further := by
      rw [Definition.bodyLines, ← ih]
      rfl
    rw [bodyLines_newline (c := '\r') rfl (by simp) joined,
      bodyLines_newline (c := '\n') rfl (by simp) lines]

end Returns

theorem questionsFrom_alike {ls ds : List (List Char)} (related : List.Forall₂ Returns ls ds)
    (start start' : Position) : List.Forall₂ QuestionText.Alike
      (questionsFrom start ls) (questionsFrom start' ds) := by
  induction related generalizing start start' with
  | nil => exact .nil
  | @cons l d ls ds first _ ih =>
    have here := first.questionOf? start start'
    have later := ih (start.advance l) (start'.advance d)
    rw [questionsFrom, questionsFrom]
    generalize questionOf? start l = p, questionOf? start' d = q at here ⊢
    cases here with
    | none => exact later
    | some alike => exact .cons alike later

theorem questions_alike {left right : String} (returns : Returns left.toList right.toList) :
    List.Forall₂ QuestionText.Alike (questions left) (questions right) :=
  questionsFrom_alike returns.chunks {} {}

end Definition

theorem QuestionText.Alike.readBody {p q : QuestionText} (alike : p.Alike q) :
    Definition.readBody q.body = Definition.readBody p.body := by
  rw [Definition.readBody, Definition.readBody, alike.body.bodyLines]

end Questionnaire
