import Questionnaire.Proofs.Dict
import Questionnaire.Proofs.Survey.Apart
import Questionnaire.Proofs.Survey.Position

/-! Whether an identifier denotes one record of a survey. Records never share one, and places and
successors follow from it. A row shares none either, and belongs to the grid that holds it, exactly
if every grid of the definition brings new identifiers only. -/
namespace Questionnaire

/-- What a definition declares once its loops are unrolled: questions, with a header in place of
each grid, and the tables of the grids. -/
def Definition.declared (limits : Limits) (sourceId definition : String) :
    Except SurveyError (List QuestionText × Dict GridTable) := do
  let unrolled ← expandLoops limits sourceId (stripComments definition)
  let grids ← extractGrids sourceId unrolled
  return (questions (String.ofList grids.content), grids.tables)

namespace Survey
variable {s : Survey} {limits : Limits} {sourceId definition : String}

/-- What holds of every survey: records have places of their own, nothing is found that has
another identifier, and the owners of rows are listed as they are found. -/
structure Ordered (s : Survey) : Prop where
  distinct : (s.records.map Record.id).Nodup
  found : ∀ p r, s.at? p = some r → s.position? r.id = some p ∧ s.get? r.id = some r ∧
    s.successor? r.id = s.at? (p + 1)
  position : ∀ id p, s.position? id = some p → ∃ r, s.at? p = some r ∧ r.id = id
  denoted : ∀ id r, s.get? id = some r → r ∈ s.records ++ s.rows ∧ r.id = id
  owner : ∀ id, s.rowOwner? id = s.rowOwners.get? id

/-- Every identifier stands for one record, and every row belongs to the grid that holds it. -/
structure Identifies (s : Survey) : Prop where
  distinct : ((s.records ++ s.rows).map Record.id).Nodup
  found : ∀ r ∈ s.records ++ s.rows, s.get? r.id = some r
  placed : ∀ r ∈ s.rows, r.PlacedIn s.records
  owned : ∀ r ∈ s.rows, s.rowOwners.get? r.id = r.membership.map Membership.grid
  unowned : ∀ r ∈ s.records, s.rowOwners.get? r.id = none

theorem rowOwners_get? (owned : ∀ r ∈ s.rows, ∃ m, r.membership = some m) (id : String) :
    s.rowOwners.get? id = s.rowOwner? id := by
  have entry (rows : List Record) (owned : ∀ r ∈ rows, ∃ m, r.membership = some m) :
      (rows.filterMap fun r => r.membership.map fun m => (r.id, m.grid)).lookup id =
        (rows.find? (·.id == id)).bind fun r => r.membership.map Membership.grid := by
    induction rows with
    | nil => rfl
    | cons r rows ih =>
      obtain ⟨⟨m, member⟩, owned⟩ := List.forall_mem_cons.1 owned
      rw [List.filterMap_cons, member, Option.map_some, Dict.lookup_cons, List.find?_cons, ih owned]
      by_cases same : id = r.id
      · simp [same, member]
      · have other : (r.id == id) = false := beq_eq_false_iff_ne.2 (Ne.symm same)
        simp [same, other]
  rw [rowOwners, Dict.get?_ofList, ← List.filterMap_reverse]
  exact entry s.rows.reverse fun r member => owned r (List.mem_reverse.1 member)

theorem denoted_of_get? {id : String} {r : Record} (found : s.get? id = some r) :
    r ∈ s.records ++ s.rows ∧ r.id = id := by
  rcases Option.or_eq_some_iff.1 found with record | ⟨-, row⟩
  · obtain ⟨member, same⟩ := mem_of_record? record
    exact ⟨List.mem_append_left _ member, same⟩
  · have member := List.mem_reverse.1 (List.mem_of_find?_eq_some row)
    exact ⟨List.mem_append_right _ member, by simpa using List.find?_some row⟩

theorem ordered_of_distinct (distinct : (s.records.map Record.id).Nodup)
    (owned : ∀ r ∈ s.rows, ∃ m, r.membership = some m) : s.Ordered := by
  refine ⟨distinct, ?_, ?_, fun id r => denoted_of_get?, fun id => (rowOwners_get? owned id).symm⟩
  · intro p r found
    obtain ⟨inside, rfl⟩ := List.getElem?_eq_some_iff.1 found
    have split : s.records = s.records.take p ++ s.records[p] :: s.records.drop (p + 1) := by
      rw [List.getElem_cons_drop, List.take_append_drop]
    have place : (s.records.take p).length = p := List.length_take_of_le (Nat.le_of_lt inside)
    refine ⟨?_, ?_, ?_⟩
    · rw [position?_of_split distinct split, place]
    · exact get?_of_record? (record?_of_mem distinct (List.getElem_mem inside))
    · rw [successor?_of_split distinct split, List.head?_drop]
      rfl
  · intro id p found
    obtain ⟨inside, hit, -⟩ := List.findIdx?_eq_some_iff_getElem.1 found
    exact ⟨s.records[p], List.getElem?_eq_getElem inside, by simpa using hit⟩

/-- Rows that are kept apart and in their places are found and owned. -/
theorem identifies_iff (owned : ∀ r ∈ s.rows, ∃ m, r.membership = some m) :
    s.Identifies ↔ ((s.records ++ s.rows).map Record.id).Nodup ∧
      ∀ r ∈ s.rows, r.PlacedIn s.records := by
  constructor
  · intro identifies
    exact ⟨identifies.distinct, identifies.placed⟩
  · rintro ⟨distinct, placed⟩
    have parts := distinct
    rw [List.map_append, List.nodup_append] at parts
    obtain ⟨recordIds, rowIds, disjoint⟩ := parts
    have row : ∀ r ∈ s.rows, s.row? r.id = some r := by
      intro r member
      have backwards : (s.rows.reverse.map Record.id).Nodup := by
        rw [List.map_reverse]
        exact List.nodup_reverse.2 rowIds
      exact record?_of_mem (s := ⟨s.name, s.rows.reverse, [], []⟩) backwards
        (List.mem_reverse.2 member)
    refine ⟨distinct, ?_, placed, ?_, ?_⟩
    · intro r member
      rcases List.mem_append.1 member with record | inRows
      · exact get?_of_record? (record?_of_mem recordIds record)
      · have free : s.record? r.id = none := by
          refine List.find?_eq_none.2 fun other among same => ?_
          exact disjoint _ (List.mem_map_of_mem among) _ (List.mem_map_of_mem inRows)
            (beq_iff_eq.1 same)
        rw [get?, free, row r inRows, Option.none_or]
    · intro r member
      rw [rowOwners_get? owned, rowOwner?, row r member, Option.bind_some]
    · intro r member
      have free : s.row? r.id = none := by
        refine List.find?_eq_none.2 fun other among same => ?_
        exact disjoint _ (List.mem_map_of_mem member) _
          (List.mem_map_of_mem (List.mem_reverse.1 among)) (beq_iff_eq.1 same).symm
      rw [rowOwners_get? owned, rowOwner?, free, Option.bind_none]

/-- A compiled survey is the draft of what its definition declares. -/
theorem compile_declared (accepted : compile limits sourceId definition = .ok s) :
    ∃ qs tables, Definition.declared limits sourceId definition = .ok (qs, tables) ∧
      Definition.Tabulated tables ∧ (∀ q ∈ qs, IsQuestionId q.id) ∧
      s.records = (qs.foldl Draft.add { tables := tables }).records ∧
      s.rows = (qs.foldl Draft.add { tables := tables }).rows := by
  simp only [compile, bind, Except.bind, pure, Except.pure] at accepted
  split at accepted
  · cases accepted
  split at accepted
  · cases accepted
  next unrolled expanded =>
  split at accepted
  · cases accepted
  next grids extracted =>
  split at accepted
  · cases accepted
  · cases accepted
    refine ⟨Definition.questions (String.ofList grids.content), grids.tables, ?_,
      Definition.extractGrids_tabulated extracted, Definition.questionsFrom_id _ _, rfl, rfl⟩
    simp only [Definition.declared, expanded, extracted, bind, Except.bind, pure, Except.pure]

/-- What holds of each kind of record holds of all records and rows of a compiled survey. -/
theorem Compiled.forall {P : Record → Prop} (compiled : s.Compiled)
    (question : ∀ q : QuestionText, IsQuestionId q.id → P (.ofQuestion q))
    (grid : ∀ (q : QuestionText) (table : GridTable), IsQuestionId q.id → table.id = q.id →
      table.Sound → P (.ofGrid q table) ∧
        ∀ index row, table.rows[index]? = some row → P (.ofRow table q.span index row)) :
    ∀ r ∈ s.records ++ s.rows, P r := by
  obtain ⟨limits, sourceId, definition, accepted⟩ := compiled
  obtain ⟨qs, tables, -, tabulated, shaped, records, rows⟩ := compile_declared accepted
  rw [records, rows]
  refine Draft.foldl_add_forall qs (Draft.regular_of_tabulated tabulated) ?_ ?_ (by simp)
  · exact fun q member => question q (shaped q member)
  · exact fun q member table named sound => grid q table (shaped q member) named sound

/-- Records of a compiled survey never share an identifier, and places, successors and owners agree
with that; all its identifiers, those of rows included, denote one record each, and rows belong to
the grids that hold them, exactly if every grid brought new identifiers only. -/
theorem compile_identifies (accepted : compile limits sourceId definition = .ok s) :
    s.Ordered ∧ ∃ qs tables, Definition.declared limits sourceId definition = .ok (qs, tables) ∧
      (s.Identifies ↔ Draft.GridsNew { tables := tables } qs) := by
  obtain ⟨qs, tables, declared, tabulated, -, records, rows⟩ := compile_declared accepted
  have start := Draft.regular_of_tabulated tabulated
  have apart : Draft.Apart { tables := tables } := ⟨List.nodup_nil, by simp⟩
  have regular := start.foldl_add qs
  have distinct := regular.distinct
  have owned := regular.member
  rw [← records] at distinct
  rw [← rows] at owned
  refine ⟨ordered_of_distinct distinct owned, qs, tables, declared, ?_⟩
  rw [identifies_iff owned, ← Draft.foldl_add_apart_iff start apart qs, records, rows]
  exact ⟨fun ⟨distinct, placed⟩ => ⟨distinct, placed⟩, fun apart => ⟨apart.distinct, apart.placed⟩⟩

/-- A grid between questions; the first of them is declared once more behind it. -/
def surveyText : String := "[A]\n\x7btext\x7d\n|grid G||x|R=r;S=s|1=c|\n[A]\n[END]"

theorem compile_identifies_grid : ∃ s, compile {} "s" surveyText = .ok s ∧ s.Ordered ∧
    s.Identifies ∧ s.rowOwners.get? "S" = some "G" ∧ s.position? "END" = some 2 := by
  have new : ((Definition.declared {} "s" surveyText).toOption.map fun declared =>
      decide (Draft.GridsNew { tables := declared.2 } declared.1)) = some true := by
    decide +kernel
  have evaluated : ((compile {} "s" surveyText).toOption.map fun s =>
      (s.rowOwners.get? "S", s.position? "END")) = some (some "G", some 2) := by
    decide +kernel
  cases accepted : compile {} "s" surveyText with
  | error e =>
    rw [accepted] at evaluated
    cases evaluated
  | ok s =>
    rw [accepted] at evaluated
    obtain ⟨owner, place⟩ := Prod.mk.inj (Option.some.inj evaluated)
    obtain ⟨ordered, qs, tables, declared, identifies⟩ := compile_identifies accepted
    rw [declared] at new
    exact ⟨s, rfl, ordered, identifies.2 (of_decide_eq_true (Option.some.inj new)), owner, place⟩

/-- A grid with a row that is called like a question in front of it. -/
def sharedText : String := "[R]\n\x7btext\x7d\n|grid G||x|R=r|1=c|\n[END]"

/-- The row is taken in beside the question, which is found in its place. -/
theorem row_shares_identifier : ∃ s, compile {} "s" sharedText = .ok s ∧
    (s.records ++ s.rows).map Record.id = ["R", "G", "END", "R"] ∧
    s.rowOwners.get? "R" = some "G" ∧ (s.get? "R").map Record.membership = some none ∧
    ¬s.Identifies := by
  have evaluated : ((compile {} "s" sharedText).toOption.map fun s =>
      ((s.records ++ s.rows).map Record.id, s.rowOwners.get? "R",
        (s.get? "R").map Record.membership)) =
      some (["R", "G", "END", "R"], some "G", some none) := by
    decide +kernel
  cases accepted : compile {} "s" sharedText with
  | error e =>
    rw [accepted] at evaluated
    cases evaluated
  | ok s =>
    rw [accepted] at evaluated
    have facts := Option.some.inj evaluated
    simp only [Prod.mk.injEq] at facts
    obtain ⟨ids, owner, found⟩ := facts
    refine ⟨s, rfl, ids, owner, found, fun identifies => ?_⟩
    have distinct := identifies.distinct
    rw [ids] at distinct
    revert distinct
    decide

end Survey

end Questionnaire
