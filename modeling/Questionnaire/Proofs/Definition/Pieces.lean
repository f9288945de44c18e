import Questionnaire.Definition.Grid
import Questionnaire.Proofs.Definition.Heads
import Questionnaire.Proofs.Text.Cut

/-! Grid blocks and the text between them. A block is found wherever its text stands at the
beginning of a line. While every block that is opened closes, texts that end a line can be
put in front of each other, and each keeps its own blocks. -/
namespace Questionnaire.Definition

open Text

namespace GridBlock

/-- What the parts of a block are made of. -/
structure WellFormed (b : GridBlock) : Prop where
  indent : Blanks b.indent
  gap : Blanks b.gap
  gap_some : b.gap ≠ []
  id : IsQuestionId (String.ofList b.id)
  args : '|' ∉ b.args
  shared : '|' ∉ b.shared
  rows : '|' ∉ b.rows
  columns : '|' ∉ b.columns

theorem takeField?_complete {field : List Char} (plain : '|' ∉ field) (rest : List Char) :
    takeField? (field ++ '|' :: rest) = some (field, rest) := by
  refine cutAtChars?_append (p := (· == '|')) (fun c member => ?_) (beq_self_eq_true '|') rest
  apply beq_eq_false_iff_ne.2
  rintro rfl
  exact plain member

theorem takeField?_plain {cs field rest : List Char} (taken : takeField? cs = some (field, rest)) :
    '|' ∉ field := by
  obtain ⟨c, -, -, plain⟩ := cutAtChars?_eq_some taken
  intro member
  have other := plain '|' member
  simp at other

theorem take?_sound {cs rest : List Char} {b : GridBlock} (taken : take? cs = some (b, rest)) :
    b.WellFormed := by
  simp only [take?, Option.bind_eq_bind, Option.bind_eq_some_iff, Option.pure_def,
    Option.some.injEq, Prod.exists, Prod.mk.injEq] at taken
  obtain ⟨_, -, gap, _, gapped, id, _, named, _, -, args, _, first, shared, _, second, rows, _,
    third, columns, _, last, rfl, rfl⟩ := taken
  unfold takeGap? at gapped
  split at gapped
  · contradiction
  · next some =>
    cases gapped
    refine ⟨blanks_takeWhile _, blanks_takeWhile _, ?_, takeQuestionId?_shape named,
      takeField?_plain first, takeField?_plain second, takeField?_plain third,
      takeField?_plain last⟩
    intro none
    exact some (List.isEmpty_iff.2 none)

theorem take?_complete {b : GridBlock} (shape : b.WellFormed) (rest : List Char) :
    take? (b.toChars ++ rest) = some (b, rest) := by
  have whole : b.toChars ++ rest = b.indent ++ (keyword ++ (b.gap ++ (b.id ++ '|' :: (b.args ++
      '|' :: (b.shared ++ '|' :: (b.rows ++ '|' :: (b.columns ++ '|' :: rest))))))) := by
    simp [toChars]
  have keyed (t : List Char) : ∀ c ∈ (keyword ++ t).head?, isLineBlank c = false := by
    intro c head
    cases head
    rfl
  have bar (t : List Char) : stripLeading? ['|'] ('|' :: t) = some t := rfl
  have behind (t : List Char) : ∀ c ∈ ('|' :: t).head?, isQuestionIdChar c = false := by
    intro c head
    cases head
    rfl
  have word (t : List Char) : ∀ c ∈ (b.id ++ t).head?, isLineBlank c = false :=
    unblank_id shape.id t
  have gap (t : List Char) : takeGap? (b.gap ++ (b.id ++ t)) = some (b.gap, b.id ++ t) := by
    have run : (b.gap ++ (b.id ++ t)).takeWhile isLineBlank = b.gap := by
      rw [takeWhile_append_stop _ (word t), List.takeWhile_eq_self_iff.2 shape.gap]
    have some : b.gap.isEmpty = false := Bool.eq_false_iff.2 (mt List.isEmpty_iff.1 shape.gap_some)
    rw [takeGap?, run, some, takeRun, run]
    change Option.some (b.gap, skipLineBlanks (b.gap ++ (b.id ++ t))) = _
    rw [skipLineBlanks_append shape.gap (word t)]
  have indent : (b.indent ++ (keyword ++ (b.gap ++ (b.id ++ '|' :: (b.args ++
      '|' :: (b.shared ++ '|' :: (b.rows ++ '|' :: (b.columns ++ '|' :: rest)))))))).takeWhile
        isLineBlank = b.indent := by
    rw [takeWhile_append_stop _ (keyed _), List.takeWhile_eq_self_iff.2 shape.indent]
  rw [whole, take?, indent, skipLineBlanks_append shape.indent (keyed _),
    stripLeading?_eq_some_iff.2 rfl]
  simp only [Option.bind_eq_bind, Option.bind_some, gap,
    takeQuestionId?_complete shape.id (behind _), bar,
    takeField?_complete shape.args, takeField?_complete shape.shared,
    takeField?_complete shape.rows, takeField?_complete shape.columns]
  rfl

/-- A block is one whatever follows it. -/
theorem take?_extend {cs rest : List Char} {b : GridBlock} (taken : take? cs = some (b, rest))
    (t : List Char) : take? (cs ++ t) = some (b, rest ++ t) := by
  rw [take?_append taken, List.append_assoc, take?_complete (take?_sound taken)]

end GridBlock

/-! ### Pieces -/

theorem takeLine_complete {body : List Char} (plain : '\n' ∉ body) (rest : List Char) :
    takeLine (body ++ '\n' :: rest) = (body ++ ['\n'], rest) := by
  induction body with
  | nil => rfl
  | cons c body ih =>
    rw [List.mem_cons, not_or] at plain
    have other : (c == '\n') = false := beq_eq_false_iff_ne.2 (Ne.symm plain.1)
    rw [List.cons_append, takeLine, other, ih plain.2]
    rfl

theorem EndsLine.of_append {cs ds : List Char} (ends : EndsLine (cs ++ ds)) : EndsLine ds := by
  intro c last
  apply ends
  rw [List.getLast?_append, last]
  rfl

/-- The first line of a text. -/
theorem EndsLine.line {cs : List Char} (ends : EndsLine cs) (some : cs ≠ []) :
    ∃ body rest, cs = body ++ '\n' :: rest ∧ '\n' ∉ body ∧ EndsLine rest := by
  have last := List.getLast?_eq_some_getLast some
  generalize cs.getLast some = c at last
  obtain rfl := ends c last
  obtain ⟨body, rest, rfl, plain⟩ := List.eq_append_cons_of_mem (List.mem_of_getLast? last)
  refine ⟨body, rest, rfl, plain, ?_⟩
  rw [← List.singleton_append, ← List.append_assoc] at ends
  exact ends.of_append

theorem pieces_plain {body rest : List Char} (plain : '\n' ∉ body)
    (other : GridBlock.take? (body ++ '\n' :: rest) = none) :
    pieces (body ++ '\n' :: rest) = .plain (body ++ ['\n']) :: pieces rest := by
  have line := takeLine_complete plain rest
  cases body with
  | nil =>
    rw [List.nil_append] at other line ⊢
    rw [pieces.eq_def]
    simp only
    split
    · next taken => rw [other] at taken; contradiction
    · next taken => rw [other] at taken; contradiction
    · rw [line]
  | cons c body =>
    rw [List.cons_append] at other line ⊢
    rw [pieces.eq_def]
    simp only
    split
    · next taken => rw [other] at taken; contradiction
    · next taken => rw [other] at taken; contradiction
    · rw [line]

theorem pieces_grid {cs body rest : List Char} {b : GridBlock} (plain : '\n' ∉ body)
    (taken : GridBlock.take? cs = some (b, body ++ '\n' :: rest)) :
    pieces cs = .grid b :: .plain (body ++ ['\n']) :: pieces rest := by
  have line := takeLine_complete plain rest
  cases cs with
  | nil => cases taken
  | cons c cs =>
    rw [pieces.eq_def]
    simp only
    split
    · next other =>
      rw [taken] at other
      simp at other
    · next other =>
      rw [taken] at other
      simp only [Option.some.injEq, Prod.mk.injEq] at other
      obtain ⟨rfl, same⟩ := other
      rw [same] at line
      rw [line]
    · next other =>
      rw [taken] at other
      contradiction

theorem wellFormed_of_mem_pieces {b : GridBlock} {cs : List Char} (member : .grid b ∈ pieces cs) :
    b.WellFormed := by
  fun_induction pieces cs with
  | case1 => cases member
  | case2 c rest a taken =>
    obtain rfl := Piece.grid.inj (List.mem_singleton.1 member)
    exact GridBlock.take?_sound taken
  | case3 c rest a d more taken _ ih =>
    simp only [List.mem_cons, Piece.grid.injEq, reduceCtorEq, false_or] at member
    rcases member with rfl | later
    · exact GridBlock.take?_sound taken
    · exact ih later
  | case4 c rest _ _ ih =>
    simp only [List.mem_cons, reduceCtorEq, false_or] at member
    exact ih member

/-- Whether a text begins like a grid block. -/
def opensGrid (cs : List Char) : Bool :=
  ((stripLeading? GridBlock.keyword (skipLineBlanks cs)).bind fun rest =>
    (GridBlock.takeGap? rest).bind fun gapped =>
      (takeQuestionId? gapped.2).bind fun named => stripLeading? ['|'] named.2).isSome

/-- Whether every grid block that is opened in a text closes there. -/
def closesGrids (cs : List Char) : Bool :=
  (pieces cs).all fun
    | .plain line => !opensGrid line
    | .grid _ => true

theorem opensGrid_of_take? {cs rest : List Char} {b : GridBlock}
    (taken : GridBlock.take? cs = some (b, rest)) : opensGrid cs = true := by
  simp only [GridBlock.take?, Option.bind_eq_bind, Option.bind_eq_some_iff] at taken
  obtain ⟨r₀, keyed, gapped, blank, named, id, r₁, bar, -⟩ := taken
  rw [opensGrid, keyed, Option.bind_some, blank, Option.bind_some, id, Option.bind_some, bar]
  rfl

theorem opensGrid_lineEnd {t : List Char} (lineEnd : LineEnd t) (cs : List Char) :
    opensGrid (cs ++ t) = opensGrid cs := by
  have oneLine : OneLine GridBlock.keyword := by
    apply oneLine_of_holds (p := (!isNewline ·))
    · exact List.all_eq_true.1 rfl
    · rfl
    · rfl
  have gap (rest : List Char) : GridBlock.takeGap? (rest ++ t) =
      (GridBlock.takeGap? rest).map fun gapped => (gapped.1, gapped.2 ++ t) := by
    have stop : ∀ c ∈ t.head?, isLineBlank c = false := lineEnd.stop rfl rfl
    unfold GridBlock.takeGap? takeRun
    rw [takeWhile_append_stop rest stop, dropWhile_append_stop rest stop]
    split <;> rfl
  have bar : OneLine ['|'] := oneLine_single rfl
  rw [opensGrid, opensGrid, skipLineBlanks_lineEnd lineEnd, stripLeading?_lineEnd lineEnd oneLine]
  cases stripLeading? GridBlock.keyword (skipLineBlanks cs) with
  | none => rfl
  | some rest =>
    simp only [Option.map_some, Option.bind_some, gap]
    cases GridBlock.takeGap? rest with
    | none => rfl
    | some gapped =>
      simp only [Option.map_some, Option.bind_some, takeQuestionId?_lineEnd lineEnd]
      cases takeQuestionId? gapped.2 with
      | none => rfl
      | some named =>
        simp only [Option.map_some, Option.bind_some, stripLeading?_lineEnd lineEnd bar,
          Option.isSome_map]

theorem lineEnd_feed (cs : List Char) : LineEnd ('\n' :: cs) := by
  intro c head
  obtain rfl := Option.some.inj head
  rfl

/-- A line that does not open a block begins none, whatever stands behind it. -/
theorem take?_none_of_line {body : List Char} (other : opensGrid (body ++ ['\n']) = false)
    (rest : List Char) : GridBlock.take? (body ++ '\n' :: rest) = none := by
  cases taken : GridBlock.take? (body ++ '\n' :: rest) with
  | none => rfl
  | some read =>
    have opens := opensGrid_of_take? taken
    rw [opensGrid_lineEnd (lineEnd_feed rest)] at opens
    rw [opensGrid_lineEnd (lineEnd_feed []), opens] at other
    contradiction

theorem GridBlock.toChars_getLast? (b : GridBlock) : b.toChars.getLast? = some '|' :=
  List.getLast?_concat

/-- The text behind a block in a text that ends a line. -/
theorem EndsLine.behind_grid {cs rest : List Char} {b : GridBlock} (ends : EndsLine cs)
    (taken : GridBlock.take? cs = some (b, rest)) :
    ∃ body further, rest = body ++ '\n' :: further ∧ '\n' ∉ body ∧ EndsLine further := by
  rw [GridBlock.take?_append taken] at ends
  refine ends.of_append.line ?_
  rintro rfl
  rw [List.append_nil] at ends
  have bar := ends '|' b.toChars_getLast?
  contradiction

/-- A text that ends a line, taken apart at its lines and its blocks. -/
theorem EndsLine.induction {motive : List Char → Prop} {cs : List Char} (ends : EndsLine cs)
    (nil : motive [])
    (line : ∀ body rest, '\n' ∉ body → GridBlock.take? (body ++ '\n' :: rest) = none →
      motive rest → motive (body ++ '\n' :: rest))
    (grid : ∀ cs b body rest, '\n' ∉ body →
      GridBlock.take? cs = some (b, body ++ '\n' :: rest) → motive rest → motive cs) :
    motive cs := by
  induction h : cs.length using Nat.strongRecOn generalizing cs with
  | _ n ih =>
    subst h
    by_cases none : cs = []
    · subst none
      exact nil
    · cases taken : GridBlock.take? cs with
      | none =>
        obtain ⟨body, rest, rfl, plain, ends⟩ := ends.line none
        have shorter : rest.length < (body ++ '\n' :: rest).length := by
          simp only [List.length_append, List.length_cons]
          omega
        exact line body rest plain taken (ih rest.length shorter ends rfl)
      | some read =>
        obtain ⟨b, behind⟩ := read
        obtain ⟨body, rest, rfl, plain, further⟩ := ends.behind_grid taken
        have longer := GridBlock.take?_length taken
        have shorter : rest.length < cs.length := by
          simp only [List.length_append, List.length_cons] at longer
          omega
        exact grid cs b body rest plain taken (ih rest.length shorter further rfl)

/-- While every block that is opened closes, a text that ends a line keeps its pieces,
whatever stands behind it. -/
theorem pieces_append {cs : List Char} (ends : EndsLine cs) (closes : closesGrids cs = true)
    (ds : List Char) : pieces (cs ++ ds) = pieces cs ++ pieces ds := by
  refine ends.induction (motive := fun cs => closesGrids cs = true →
    pieces (cs ++ ds) = pieces cs ++ pieces ds) ?_ ?_ ?_ closes
  · intro _
    rw [pieces.eq_def []]
    rfl
  · intro body rest plain taken ih closes
    have split := pieces_plain plain taken
    rw [closesGrids, split, List.all_cons, Bool.and_eq_true, Bool.not_eq_true'] at closes
    rw [List.append_assoc, List.cons_append, pieces_plain plain (take?_none_of_line closes.1 _),
      split, ih closes.2]
    rfl
  · intro cs b body rest plain taken ih closes
    have split := pieces_grid plain taken
    rw [closesGrids, split, List.all_cons, List.all_cons, Bool.and_eq_true,
      Bool.and_eq_true] at closes
    have joined := GridBlock.take?_extend taken ds
    rw [List.append_assoc, List.cons_append] at joined
    rw [pieces_grid plain joined, split, ih closes.2.2]
    rfl

/-! ### Headers -/

/-- What takes the place of a piece. -/
def Piece.content : Piece → List Char
  | plain cs => cs
  | grid b => placeholder b

/-- A text with headers in the place of its grids. -/
def content (cs : List Char) : List Char := (pieces cs).flatMap Piece.content

/-- The headers that are read from a text with grids. -/
def heads (cs : List Char) : List Head := lineHeads (content cs)

theorem endsLine_concat (cs : List Char) : EndsLine (cs ++ ['\n']) := by
  intro c last
  rw [List.getLast?_concat] at last
  exact (Option.some.inj last).symm

/-- The options of the header that stands for a grid. -/
def gridOptions (args : List Char) : List Char :=
  ",grid".toList ++ (argumentOptions (takeMandate args).2).flatMap (',' :: ·)

theorem placeholder_eq (b : GridBlock) : placeholder b =
    '[' :: (b.id ++ ((takeMandate b.args).1 ++ (gridOptions b.args ++ [']', '\n']))) := by
  simp [placeholder, gridOptions]

theorem placeholder_endsLine (b : GridBlock) : EndsLine (placeholder b) := by
  have split : placeholder b =
      '[' :: (b.id ++ ((takeMandate b.args).1 ++ (gridOptions b.args ++ [']']))) ++ ['\n'] := by
    simp [placeholder_eq]
  rw [split]
  exact endsLine_concat _

theorem content_endsLine {cs : List Char} (ends : EndsLine cs) : EndsLine (content cs) := by
  refine ends.induction (motive := fun cs => EndsLine (content cs)) ?_ ?_ ?_
  · rw [content, pieces.eq_def []]
    intro c last
    cases last
  · intro body rest plain taken ih
    rw [content, pieces_plain plain taken]
    exact (endsLine_concat body).append ih
  · intro cs b body rest plain taken ih
    rw [content, pieces_grid plain taken]
    exact (placeholder_endsLine b).append ((endsLine_concat body).append ih)

theorem content_append {cs : List Char} (ends : EndsLine cs) (closes : closesGrids cs = true)
    (ds : List Char) : content (cs ++ ds) = content cs ++ content ds := by
  rw [content, pieces_append ends closes, List.flatMap_append]
  rfl

theorem heads_append {cs : List Char} (ends : EndsLine cs) (closes : closesGrids cs = true)
    (ds : List Char) : heads (cs ++ ds) = heads cs ++ heads ds := by
  rw [heads, content_append ends closes, lineHeads_append (content_endsLine ends)]
  rfl

theorem extractPieces_content {sourceId : String} {start : Position} {tables : Dict GridTable}
    {ps : List Piece} {grids : Grids}
    (extracted : extractPieces sourceId start tables ps = .ok grids) :
    grids.content = ps.flatMap Piece.content := by
  induction ps generalizing start tables grids with
  | nil =>
    cases extracted
    rfl
  | cons piece ps ih =>
    cases piece with
    | plain cs =>
      simp only [extractPieces, bind, Except.bind] at extracted
      split at extracted
      · contradiction
      · next rest read =>
        cases extracted
        rw [List.flatMap_cons, ← ih read]
        rfl
    | grid b =>
      simp only [extractPieces, bind, Except.bind] at extracted
      split at extracted
      · contradiction
      · split at extracted
        · contradiction
        · next rest read =>
          cases extracted
          rw [List.flatMap_cons, ← ih read]
          rfl

/-- The questions of a text are those that its headers declare, grids among them. -/
theorem extractGrids_heads {sourceId text : String} {grids : Grids}
    (extracted : extractGrids sourceId text = .ok grids) :
    (questions (String.ofList grids.content)).map QuestionText.head = heads text.toList := by
  rw [questions_heads, extractPieces_content extracted]
  rfl

end Questionnaire.Definition
