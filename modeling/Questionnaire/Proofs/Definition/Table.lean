import Questionnaire.Definition.Grid

/-! Tables of grids as a definition may hold them. A table that is read has rows and columns,
the identifiers of its rows are names without a point, and the value of a column ends at the
sign of equality. -/
namespace Questionnaire

structure GridTable.Sound (table : GridTable) : Prop where
  rows : table.rows ≠ []
  columns : table.columns ≠ []
  rowId : ∀ row ∈ table.rows, isIdentifier row.id = true ∧ '.' ∉ row.id.toList
  value : ∀ column ∈ table.columns, '=' ∉ column.value.toList

/-- A result that something was evaluated of is there. -/
theorem exists_ok_of_map {ε α β : Type} {x : Except ε α} {f : α → β} {b : β}
    (evaluated : x.toOption.map f = some b) : ∃ a, x = .ok a ∧ f a = b := by
  cases x with
  | error e => cases evaluated
  | ok a => exact ⟨a, rfl, Option.some.inj evaluated⟩

namespace Definition

open Text

theorem exists_of_mapM_ok {α β ε : Type} {f : α → Except ε β} {xs : List α} {ys : List β}
    (mapped : xs.mapM f = .ok ys) : ∀ y ∈ ys, ∃ x ∈ xs, f x = .ok y := by
  induction xs generalizing ys with
  | nil =>
    cases mapped
    simp
  | cons x xs ih =>
    simp only [List.mapM_cons, bind, Except.bind, pure, Except.pure] at mapped
    split at mapped
    · cases mapped
    · next y first =>
      split at mapped
      · cases mapped
      · next rest later =>
        cases mapped
        intro z member
        rcases List.mem_cons.1 member with rfl | member
        · exact ⟨x, List.mem_cons_self, first⟩
        · obtain ⟨w, inside, read⟩ := ih later z member
          exact ⟨w, List.mem_cons_of_mem _ inside, read⟩

theorem mem_of_mem_trimChars {cs : List Char} {c : Char} (member : c ∈ trimChars cs) : c ∈ cs := by
  have within {p : Char → Bool} {ds : List Char} (inside : c ∈ ds.dropWhile p) : c ∈ ds :=
    (List.dropWhile_sublist p).subset inside
  unfold trimChars trimEndChars trimStartChars at member
  exact within (List.mem_reverse.1 (within (List.mem_reverse.1 member)))

theorem readRow_id {item : List Char} {row : GridRow} (read : readRow item = .ok row) :
    isIdentifier row.id = true ∧ '.' ∉ row.id.toList := by
  simp only [readRow] at read
  split at read
  · cases read
  · split at read
    · next named =>
      cases read
      simpa using named
    · cases read

theorem readColumn_value {item : List Char} {column : GridColumn}
    (read : readColumn item = .ok column) : '=' ∉ column.value.toList := by
  simp only [readColumn] at read
  split at read
  · cases read
  · next value label cut =>
    cases read
    obtain ⟨_, -, -, before⟩ := cutAtChars?_eq_some cut
    rw [String.toList_ofList]
    intro member
    simpa using before _ (mem_of_mem_trimChars member)

theorem readTable_sound {b : GridBlock} {table : GridTable} (read : readTable b = .ok table) :
    table.Sound := by
  simp only [readTable, bind, Except.bind, pure, Except.pure] at read
  split at read
  · cases read
  · next rows readRows =>
    split at read
    · cases read
    · next columns readColumns =>
      split at read
      · cases read
      · next filled =>
        cases read
        simp only [Bool.or_eq_true, List.isEmpty_iff, not_or] at filled
        constructor
        · exact filled.1
        · exact filled.2
        · intro row member
          obtain ⟨item, -, read⟩ := exists_of_mapM_ok readRows row member
          exact readRow_id read
        · intro column member
          obtain ⟨item, -, read⟩ := exists_of_mapM_ok readColumns column member
          exact readColumn_value read

/-- Tables that stand under their own identifiers. -/
def Tabulated (tables : Dict GridTable) : Prop :=
  ∀ id table, tables.get? id = some table → table.id = id ∧ table.Sound

theorem extractPieces_tabulated {sourceId : String} {ps : List Piece} {start : Position}
    {tables : Dict GridTable} {grids : Grids} (tabulated : Tabulated tables)
    (extracted : extractPieces sourceId start tables ps = .ok grids) : Tabulated grids.tables := by
  induction ps generalizing start tables grids with
  | nil =>
    cases extracted
    exact tabulated
  | cons piece rest ih =>
    cases piece with
    | plain cs =>
      simp only [extractPieces, bind, Except.bind] at extracted
      split at extracted
      · cases extracted
      · next later taken =>
        cases extracted
        have kept := ih tabulated taken
        exact kept
    | grid b =>
      simp only [extractPieces, bind, Except.bind] at extracted
      split at extracted
      · cases extracted
      · next table read =>
        split at extracted
        · cases extracted
        · next later taken =>
          cases extracted
          have more : Tabulated (tables.insert table.id table) := by
            intro id other held
            rw [Dict.get?_insert] at held
            split at held
            · next same =>
              cases held
              exact ⟨same.symm, readTable_sound read⟩
            · exact tabulated id other held
          have kept := ih more taken
          exact kept

theorem extractGrids_tabulated {sourceId content : String} {grids : Grids}
    (extracted : extractGrids sourceId content = .ok grids) : Tabulated grids.tables :=
  extractPieces_tabulated (fun _ _ held => by cases held) extracted

end Definition

end Questionnaire
