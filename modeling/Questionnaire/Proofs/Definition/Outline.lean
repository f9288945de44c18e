import Questionnaire.Proofs.Definition.GridArguments
import Questionnaire.Proofs.Definition.Table

/-! The outline of a definition text: the questions that it declares, those that stand for a
grid with the table of their own block, and the tables of all blocks in the order of the text.
A grid is read with the table of the last block that has its identifier. -/
namespace Questionnaire

/-- A question of a text. A grid comes with the table of the block in whose place its header
stands. -/
structure Declaration where
  question : QuestionText
  table : Option GridTable

def Declaration.id (d : Declaration) : String := d.question.id

/-- A grid is declared by a header with the grid flag and a table of its own identifier. -/
structure Declaration.Sound (d : Declaration) : Prop where
  flagged : ∀ table ∈ d.table, d.question.directives.grid = true
  named : ∀ table ∈ d.table, table.id = d.id

structure Outline where
  declarations : List Declaration
  tables : List GridTable

/-- The table of the last block with an identifier. -/
def Outline.lastTable? (o : Outline) (id : String) : Option GridTable :=
  (o.tables.filter (·.id == id)).getLast?

namespace Definition

open Text

namespace Piece

def table? : Piece → Option GridTable
  | plain _ => none
  | grid b => (readTable b).toOption

/-- For each header that is read in the place of a piece, the table that it stands for. Of the
headers in the place of a grid only the first one does. -/
def headTables : Piece → List (Option GridTable)
  | plain cs => (lineHeads cs).map fun _ => none
  | grid b => (headOf? (placeholder b)).toList.map (fun _ => (readTable b).toOption) ++
      (furtherHeads (placeholder b)).map fun _ => none

end Piece

/-- What a text without comments and loops declares. -/
def outlineOf (ps : List Piece) (qs : List QuestionText) : Outline where
  declarations := List.zipWith Declaration.mk qs (ps.flatMap Piece.headTables)
  tables := ps.filterMap Piece.table?

def outline (limits : Limits) (sourceId definition : String) : Except SurveyError Outline := do
  let unrolled ← expandLoops limits sourceId (stripComments definition)
  let grids ← extractGrids sourceId unrolled
  return outlineOf (pieces unrolled.toList) (questions (String.ofList grids.content))

/-! ### Headers and their tables -/

theorem lineHeads_split (cs : List Char) :
    lineHeads cs = (headOf? cs).toList ++ furtherHeads cs := by
  have none : OneLine [] := nofun
  exact lineHeads_oneLine none cs

/-- A header with its table: none, or one of the header's own identifier, which has the flag. -/
structure StandsFor (h : Head) (table : Option GridTable) : Prop where
  flagged : ∀ t ∈ table, h.directives.grid = true
  named : ∀ t ∈ table, t.id = h.id

theorem standsFor_none (h : Head) : StandsFor h none := ⟨nofun, nofun⟩

theorem standsFor_plain (hs : List Head) : List.Forall₂ StandsFor hs (hs.map fun _ => none) := by
  rw [List.forall₂_map_right_iff]
  exact List.forall₂_same.2 fun h _ => standsFor_none h

theorem readTable_id {b : GridBlock} {table : GridTable} (read : readTable b = .ok table) :
    table.id = String.ofList b.id := by
  simp only [readTable, bind, Except.bind, pure, Except.pure] at read
  split at read
  · cases read
  · split at read
    · cases read
    · split at read
      · cases read
      · cases read
        rfl

/-- The header in the place of a block has the identifier of the block, and the grid flag. -/
theorem headOf?_placeholder {b : GridBlock} {h : Head} (shape : b.WellFormed)
    (found : headOf? (placeholder b) = some h) :
    h.id = String.ofList b.id ∧ h.directives.grid = true := by
  have marked := GridBlock.isMark_takeMandate b.args
  have follows := GridBlock.follows_gridOptions b.args [']', '\n']
  have read := headOf?_headerText shape.id marked follows (by simp) blanks_nil
  rw [List.nil_append, ← GridBlock.placeholder_headerText, found,
    GridBlock.placeholder_headerText, takeHeaderLine?_headerText shape.id marked follows] at read
  obtain ⟨⟨header, rest⟩, closed, rfl⟩ := Option.map_eq_some_iff.1 read.symm
  obtain ⟨rest', -, same⟩ := Option.map_eq_some_iff.1 closed
  obtain ⟨rfl, rfl⟩ := Prod.mk.inj same
  refine ⟨rfl, ?_⟩
  have bracket : Follows [']', '\n'] := by
    intro c head
    obtain rfl := Option.some.inj head
    rfl
  have behind := follows_items (argumentOptions (takeMandate b.args).2) bracket
  have options : (takeOptions (gridOptions b.args ++ [']', '\n'])).1 =
      ("grid", none) :: (takeOptions ((argumentOptions (takeMandate b.args).2).flatMap (',' :: ·) ++
        [']', '\n'])).1 := by
    rw [gridOptions, List.append_assoc, takeOptions_some (optionText_grid.reads _ behind)]
  rw [options]
  exact congrArg (fun h => h.directives.grid) (head_grid _ _ _)

theorem Piece.standsFor_headTables {p : Piece} (shape : ∀ b, p = .grid b → b.WellFormed) :
    List.Forall₂ StandsFor (lineHeads p.content) p.headTables := by
  cases p with
  | plain cs => exact standsFor_plain _
  | grid b =>
    change List.Forall₂ StandsFor (lineHeads (placeholder b)) _
    rw [lineHeads_split, headTables]
    refine List.rel_append ?_ (standsFor_plain _)
    cases found : headOf? (placeholder b) with
    | none => exact .nil
    | some h =>
      obtain ⟨named, flagged⟩ := headOf?_placeholder (shape b rfl) found
      refine .cons ⟨fun _ _ => flagged, fun table member => ?_⟩ .nil
      cases read : readTable b with
      | error fault =>
        rw [read] at member
        cases member
      | ok t =>
        rw [read] at member
        obtain rfl := Option.some.inj member
        rw [readTable_id read, named]

/-- Every piece begins a line, so that its headers do not depend on the pieces around it. -/
theorem lineHeads_pieces (cs : List Char) :
    lineHeads ((pieces cs).flatMap Piece.content) =
      (pieces cs).flatMap fun p => lineHeads p.content := by
  have line (ds : List Char)
      (ih : lineHeads ((pieces (takeLine ds).2).flatMap Piece.content) =
        (pieces (takeLine ds).2).flatMap fun p => lineHeads p.content) :
      lineHeads ((takeLine ds).1 ++ (pieces (takeLine ds).2).flatMap Piece.content) =
        lineHeads (takeLine ds).1 ++ (pieces (takeLine ds).2).flatMap fun p => lineHeads p.content := by
    by_cases further : (takeLine ds).2 = []
    · rw [further, pieces.eq_def []]
      simp
    · rw [lineHeads_append (takeLine_endsLine further), ih]
  fun_induction pieces cs with
  | case1 => rfl
  | case2 c rest b taken => simp
  | case3 c rest b d more taken _ ih =>
    rw [List.flatMap_cons, List.flatMap_cons, List.flatMap_cons, List.flatMap_cons]
    change lineHeads (placeholder b ++ _) = lineHeads (placeholder b) ++ _
    rw [lineHeads_append (placeholder_endsLine b)]
    exact congrArg _ (line (d :: more) ih)
  | case4 c rest _ _ ih =>
    rw [List.flatMap_cons, List.flatMap_cons]
    exact line (c :: rest) ih

/-- Every question of a text comes with its table. -/
theorem standsFor_questions {sourceId text : String} {grids : Grids}
    (extracted : extractGrids sourceId text = .ok grids) :
    List.Forall₂ StandsFor ((questions (String.ofList grids.content)).map QuestionText.head)
      ((pieces text.toList).flatMap Piece.headTables) := by
  rw [extractGrids_heads extracted, heads, content, lineHeads_pieces]
  have shape : ∀ p ∈ pieces text.toList, ∀ b, p = .grid b → b.WellFormed := by
    rintro p member b rfl
    exact wellFormed_of_mem_pieces member
  generalize pieces text.toList = ps at shape
  induction ps with
  | nil => exact .nil
  | cons p ps ih =>
    obtain ⟨here, rest⟩ := List.forall_mem_cons.1 shape
    exact List.rel_append (Piece.standsFor_headTables here) (ih rest)

/-! ### The outline -/

theorem zipWith_declaration {qs : List QuestionText} {tables : List (Option GridTable)}
    (stand : List.Forall₂ StandsFor (qs.map QuestionText.head) tables) :
    (List.zipWith Declaration.mk qs tables).map Declaration.question = qs ∧
      ∀ d ∈ List.zipWith Declaration.mk qs tables, d.Sound := by
  rw [List.forall₂_map_left_iff] at stand
  induction stand with
  | nil => exact ⟨rfl, nofun⟩
  | @cons q table qs tables here _ ih =>
    obtain ⟨whole, sound⟩ := ih
    exact ⟨congrArg (q :: ·) whole,
      List.forall_mem_cons.2 ⟨⟨here.flagged, here.named⟩, sound⟩⟩

/-- A table that is held counts as one in front of those that follow. -/
theorem getLast?_or_insert (table : GridTable) (later : List GridTable) (tables : Dict GridTable)
    (id : String) : (((table :: later).filter (·.id == id)).getLast?).or (tables.get? id) =
      ((later.filter (·.id == id)).getLast?).or ((tables.insert table.id table).get? id) := by
  rw [Dict.get?_insert, List.filter_cons]
  by_cases same : id = table.id
  · rw [if_pos same, if_pos (beq_iff_eq.2 same.symm)]
    cases last : (later.filter (·.id == id)).getLast? with
    | none =>
      rw [List.getLast?_eq_none_iff.1 last]
      rfl
    | some other =>
      rw [List.getLast?_cons, last]
      rfl
  · have other : ¬(table.id == id) = true := fun held => same (beq_iff_eq.1 held).symm
    rw [if_neg same, if_neg other]

/-- Of the tables with one identifier the last one is held. -/
theorem extractPieces_tables {sourceId : String} {ps : List Piece} {start : Position}
    {tables : Dict GridTable} {grids : Grids}
    (extracted : extractPieces sourceId start tables ps = .ok grids) (id : String) :
    grids.tables.get? id =
      (((ps.filterMap Piece.table?).filter (·.id == id)).getLast?).or (tables.get? id) := by
  induction ps generalizing start tables grids with
  | nil =>
    cases extracted
    rfl
  | cons piece ps ih =>
    cases piece with
    | plain cs =>
      simp only [extractPieces, bind, Except.bind] at extracted
      split at extracted
      · cases extracted
      · next later taken =>
        cases extracted
        have kept := ih taken
        exact kept
    | grid b =>
      simp only [extractPieces, bind, Except.bind] at extracted
      split at extracted
      · cases extracted
      · next table read =>
        split at extracted
        · cases extracted
        · next later taken =>
          cases extracted
          have here : (Piece.grid b).table? = some table := by
            rw [Piece.table?, read]
            rfl
          rw [List.filterMap_cons, here, getLast?_or_insert]
          have kept := ih taken
          exact kept

/-- What is declared, in the form that questions are taken in, and its outline. -/
theorem extractGrids_outline {sourceId text : String} {grids : Grids}
    (extracted : extractGrids sourceId text = .ok grids) :
    let o := outlineOf (pieces text.toList) (questions (String.ofList grids.content))
    o.declarations.map Declaration.question = questions (String.ofList grids.content) ∧
      (∀ d ∈ o.declarations, d.Sound) ∧ ∀ id, grids.tables.get? id = o.lastTable? id := by
  obtain ⟨whole, sound⟩ := zipWith_declaration (standsFor_questions extracted)
  refine ⟨whole, sound, fun id => ?_⟩
  have last := extractPieces_tables extracted id
  rwa [show ({} : Dict GridTable).get? id = none from rfl, Option.or_none] at last

end Definition

end Questionnaire
