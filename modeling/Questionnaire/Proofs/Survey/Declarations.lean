import Questionnaire.Proofs.Definition.Outline
import Questionnaire.Proofs.Survey.Identity

/-! Identifiers that are declared more than once. The record that a survey keeps is built from
the first declaration of its identifier, but with the table of the last block that is called
so, and the rows of a later grid are taken in as well. The first declaration is kept as a whole
exactly if the table attached to its identifier is its own. -/
namespace Questionnaire

/-- The record of a question with the table that it takes. -/
def Record.declaring (q : QuestionText) : Option GridTable → Record
  | some table => .ofGrid q table
  | none => .ofQuestion q

/-- The rows that a question with the table that it takes brings. -/
def Record.rowsOf (q : QuestionText) : Option GridTable → List Record
  | some table => table.rows.mapIdx (.ofRow table q.span)
  | none => []

def Declaration.record (d : Declaration) : Record := .declaring d.question d.table

def Declaration.rows (d : Declaration) : List Record := Record.rowsOf d.question d.table

/-- The rows of the grid with an identifier. -/
def rowsUnder (id : String) (rows : List Record) : List Record :=
  rows.filter fun r => r.membership.map Membership.grid == some id

/-- Whether a question has an identifier and the grid flag. -/
def QuestionText.lays (q : QuestionText) (id : String) : Bool := q.id == id && q.directives.grid

/-- The table attached to an identifier: that of the last block called so, if any of its
declarations has the grid flag. -/
def Outline.attached? (o : Outline) (id : String) : Option GridTable :=
  if o.declarations.any (·.question.lays id) then o.lastTable? id else none

/-- The first declaration of an identifier is all that a survey has of it. -/
structure Survey.KeepsFirst (s : Survey) (d : Declaration) : Prop where
  record : s.records.filter (·.id == d.id) = [d.record]
  rows : rowsUnder d.id s.rows = d.rows

theorem Record.declaring_id (q : QuestionText) (table : Option GridTable) :
    (Record.declaring q table).id = q.id := by
  cases table with
  | none =>
    change (Record.ofQuestion q).id = q.id
    unfold Record.ofQuestion
    split <;> rfl
  | some table => rfl

/-- A question and its table can be told from the record. -/
theorem Record.declaring_inj {q : QuestionText} {table other : Option GridTable}
    (same : Record.declaring q table = .declaring q other) : table = other := by
  have content := congrArg Record.content same
  cases table with
  | none =>
    cases other with
    | none => rfl
    | some other => exact absurd content (Draft.ofQuestion_content q other)
  | some table =>
    cases other with
    | none => exact absurd content.symm (Draft.ofQuestion_content q table)
    | some other => exact congrArg some (Content.grid.inj content)

namespace Draft
variable {d : Draft} {q : QuestionText} {qs : List QuestionText} {id : String}

/-! ### Tables -/

theorem table?_of_lays (other : q.lays id = false) (same : q.id = id) : d.table? q = none := by
  have plain : q.directives.grid = false := by simpa [QuestionText.lays, same] using other
  rw [table?, plain]
  rfl

theorem add_get? (d : Draft) (q : QuestionText) (id : String) :
    (d.add q).tables.get? id = if q.lays id then none else d.tables.get? id := by
  cases taken : d.table? q with
  | none =>
    rw [add_of_none taken, push_tables]
    split
    · next lays =>
      simp only [QuestionText.lays, Bool.and_eq_true, beq_iff_eq] at lays
      obtain ⟨rfl, flagged⟩ := lays
      rwa [table?, if_pos flagged] at taken
    · rfl
  | some table =>
    have flagged : q.directives.grid = true := by
      unfold table? at taken
      split at taken
      · next flagged => exact flagged
      · cases taken
    rw [add_of_table taken, push_tables]
    change (d.tables.erase q.id).get? id = _
    rw [Dict.get?_erase, QuestionText.lays, flagged, Bool.and_true]
    by_cases same : id = q.id
    · rw [if_pos same, if_pos (beq_iff_eq.2 same.symm)]
    · have other : ¬(q.id == id) = true := fun held => same (beq_iff_eq.1 held).symm
      rw [if_neg same, if_neg other]

theorem foldl_add_get? (fresh : ∀ q ∈ qs, q.id ≠ id) :
    (qs.foldl add d).tables.get? id = d.tables.get? id := by
  induction qs generalizing d with
  | nil => rfl
  | cons q qs ih =>
    obtain ⟨here, rest⟩ := List.forall_mem_cons.1 fresh
    have other : q.lays id = false := by simp [QuestionText.lays, here]
    rw [List.foldl_cons, ih rest, add_get?, other]
    rfl

/-! ### Rows -/

theorem rowsUnder_rowsOf {table : Option GridTable} (named : ∀ t ∈ table, t.id = q.id) :
    rowsUnder id (Record.rowsOf q table) = if q.id = id then Record.rowsOf q table else [] := by
  cases table with
  | none => simp [Record.rowsOf, rowsUnder]
  | some table =>
    have grid : ∀ r ∈ Record.rowsOf q (some table),
        (r.membership.map Membership.grid == some id) = (q.id == id) := by
      intro r member
      obtain ⟨index, row, -, rfl⟩ := mem_ofRow member
      rw [← named table rfl]
      rfl
    unfold rowsUnder
    split
    · next same => rw [List.filter_eq_self.2 fun r member => by rw [grid r member, beq_iff_eq.2 same]]
    · next other =>
      rw [List.filter_eq_nil_iff.2 fun r member => by rw [grid r member]; simpa using other]

theorem add_rows (d : Draft) (q : QuestionText) :
    (d.add q).rows = d.rows ++ Record.rowsOf q (d.table? q) := by
  cases taken : d.table? q with
  | none =>
    rw [add_of_none taken, push_rows]
    exact (List.append_nil _).symm
  | some table =>
    rw [add_of_table taken, push_rows]
    rfl

/-- The first question with the grid flag brings the rows of its identifier. -/
theorem foldl_rowsUnder (regular : d.Regular) (qs : List QuestionText) (id : String) :
    rowsUnder id (qs.foldl add d).rows = rowsUnder id d.rows ++
      ((qs.find? (·.lays id)).map fun q => Record.rowsOf q (d.tables.get? id)).getD [] := by
  induction qs generalizing d with
  | nil => exact (List.append_nil _).symm
  | cons q qs ih =>
    have named : ∀ t ∈ d.table? q, t.id = q.id := fun t taken => (regular.takes taken).1
    have here : rowsUnder id (d.add q).rows =
        rowsUnder id d.rows ++ if q.id = id then Record.rowsOf q (d.table? q) else [] := by
      rw [add_rows, ← rowsUnder_rowsOf named]
      exact List.filter_append ..
    rw [List.foldl_cons, ih (regular.add q), here, List.append_assoc, add_get?]
    congr 1
    cases lays : q.lays id with
    | true =>
      have found : (q :: qs).find? (·.lays id) = some q := List.find?_cons_of_pos lays
      rw [found]
      have facts := lays
      simp only [QuestionText.lays, Bool.and_eq_true, beq_iff_eq] at facts
      obtain ⟨rfl, flagged⟩ := facts
      have none : ((qs.find? (·.lays q.id)).map fun e => Record.rowsOf e Option.none).getD [] = [] := by
        cases qs.find? (·.lays q.id) <;> rfl
      rw [if_pos rfl, if_pos rfl, none, List.append_nil, table?, if_pos flagged]
      rfl
    | false =>
      have further : (q :: qs).find? (·.lays id) = qs.find? (·.lays id) :=
        List.find?_cons_of_neg (by simp [lays])
      rw [further]
      have own : (if q.id = id then Record.rowsOf q (d.table? q) else []) = [] := by
        split
        · next same => rw [table?_of_lays lays same]; rfl
        · rfl
      rw [own]
      rfl

/-! ### Records -/

/-- Taking in a question comes down to pushing its record behind the rows of its grid. -/
theorem add_declaring (d : Draft) (q : QuestionText) : ∃ behind : Draft,
    behind.records = d.records ∧ behind.rows = (d.add q).rows ∧
      d.add q = behind.push (.declaring q (d.table? q)) := by
  cases taken : d.table? q with
  | none =>
    refine ⟨d, rfl, ?_, add_of_none taken⟩
    rw [add_of_none taken, push_rows]
  | some table =>
    refine ⟨{ d with tables := d.tables.erase q.id }.addRows table q.span, rfl, ?_,
      add_of_table taken⟩
    rw [add_of_table taken, push_rows]

theorem add_ids (d : Draft) (q : QuestionText) {id : String}
    (member : id ∈ (d.add q).records.map Record.id) :
    id ∈ d.records.map Record.id ∨ q.id = id ∧ id ∉ (d.add q).rows.map Record.id := by
  obtain ⟨behind, records, rows, push⟩ := add_declaring d q
  rw [← rows]
  rw [push, Draft.push] at member
  split at member
  · rw [records] at member
    exact .inl member
  · next free =>
    rw [List.map_append, List.mem_append, records] at member
    rcases member with old | new
    · exact .inl old
    · rw [List.map_singleton, List.mem_singleton, Record.declaring_id] at new
      subst new
      refine .inr ⟨rfl, fun row => free ?_⟩
      rw [Record.declaring_id]
      exact declares_iff.2 (.inr row)

/-- A question that is not called so adds no record of that name. -/
theorem foldl_add_ids (fresh : ∀ q ∈ qs, q.id ≠ id)
    (member : id ∈ (qs.foldl add d).records.map Record.id) : id ∈ d.records.map Record.id := by
  induction qs generalizing d with
  | nil => exact member
  | cons q qs ih =>
    obtain ⟨here, rest⟩ := List.forall_mem_cons.1 fresh
    rcases d.add_ids q (ih rest member) with old | new
    · exact old
    · exact absurd new.1 here

/-- Where a row has an identifier, no record gets it any more. -/
theorem foldl_add_shut (row : id ∈ d.rows.map Record.id)
    (member : id ∈ (qs.foldl add d).records.map Record.id) : id ∈ d.records.map Record.id := by
  induction qs generalizing d with
  | nil => exact member
  | cons q qs ih =>
    have still : id ∈ (d.add q).rows.map Record.id :=
      ((d.add_grows q).2.map Record.id).subset row
    rcases d.add_ids q (ih still member) with old | new
    · exact old
    · exact absurd still new.2

/-- The first question of an identifier makes its record, unless a row has the identifier
already. -/
theorem foldl_add_first {before : List QuestionText} (after : List QuestionText)
    (unknown : q.id ∉ d.records.map Record.id) (fresh : ∀ e ∈ before, e.id ≠ q.id) :
    (q.id ∈ ((before ++ q :: after).foldl add d).records.map Record.id →
      .declaring q (if q.directives.grid then d.tables.get? q.id else none) ∈
        ((before ++ q :: after).foldl add d).records) ∧
    (q.id ∈ ((before ++ q :: after).foldl add d).records.map Record.id ∨
      q.id ∈ ((before ++ q :: after).foldl add d).rows.map Record.id) := by
  rw [List.foldl_append, List.foldl_cons]
  have unmade : q.id ∉ (before.foldl add d).records.map Record.id :=
    fun member => unknown (foldl_add_ids fresh member)
  have held : (before.foldl add d).table? q =
      if q.directives.grid then d.tables.get? q.id else none := by
    rw [table?, foldl_add_get? fresh]
  obtain ⟨behind, records, rows, push⟩ := add_declaring (before.foldl add d) q
  rw [held] at push
  have grows := foldl_add_grows after ((before.foldl add d).add q)
  cases declared : behind.declares q.id with
  | true =>
    have row : q.id ∈ ((before.foldl add d).add q).rows.map Record.id := by
      rcases declares_iff.1 declared with record | row
      · rw [records] at record
        exact absurd record unmade
      · rwa [rows] at row
    refine ⟨fun member => ?_, .inr ((grows.2.map Record.id).subset row)⟩
    rcases add_ids _ q (foldl_add_shut row member) with old | new
    · exact absurd old unmade
    · exact absurd row new.2
  | false =>
    have made : Record.declaring q (if q.directives.grid then d.tables.get? q.id else none) ∈
        ((before.foldl add d).add q).records := by
      rw [push, Draft.push, Record.declaring_id, declared]
      exact List.mem_append_right _ (List.mem_singleton_self _)
    refine ⟨fun _ => grows.1.subset made, .inl ?_⟩
    rw [← Record.declaring_id q (if q.directives.grid then d.tables.get? q.id else none)]
    exact List.mem_map_of_mem (grows.1.subset made)

end Draft

namespace Survey
variable {s : Survey} {limits : Limits} {sourceId definition : String}

/-- A compiled survey is the draft of its outline. -/
theorem compile_outline (accepted : compile limits sourceId definition = .ok s) :
    ∃ o tables, Definition.outline limits sourceId definition = .ok o ∧
      Definition.declared limits sourceId definition =
        .ok (o.declarations.map Declaration.question, tables) ∧
      (∀ d ∈ o.declarations, d.Sound) ∧ (∀ id, tables.get? id = o.lastTable? id) ∧
      Definition.Tabulated tables ∧
      s.records = ((o.declarations.map Declaration.question).foldl Draft.add
        { tables := tables }).records ∧
      s.rows = ((o.declarations.map Declaration.question).foldl Draft.add
        { tables := tables }).rows := by
  obtain ⟨qs, tables, declared, tabulated, -, records, rows⟩ := compile_declared accepted
  have read := declared
  simp only [Definition.declared, bind, Except.bind, pure, Except.pure] at read
  split at read
  · cases read
  next unrolled expanded =>
  split at read
  · cases read
  next grids extracted =>
  cases read
  obtain ⟨whole, sound, last⟩ := Definition.extractGrids_outline extracted
  rw [← whole] at declared records rows
  refine ⟨_, grids.tables, ?_, declared, sound, last, tabulated, records, rows⟩
  simp only [Definition.outline, expanded, extracted, bind, Except.bind, pure, Except.pure]

theorem filter_id_of_mem {rs : List Record} {r : Record} (distinct : (rs.map Record.id).Nodup)
    (member : r ∈ rs) : rs.filter (·.id == r.id) = [r] := by
  induction rs with
  | nil => cases member
  | cons other rs ih =>
    rw [List.map_cons, List.nodup_cons] at distinct
    obtain ⟨apart, distinct⟩ := distinct
    rcases List.mem_cons.1 member with rfl | later
    · have none : rs.filter (·.id == r.id) = [] := by
        rw [List.filter_eq_nil_iff]
        intro e inside same
        exact apart (beq_iff_eq.1 same ▸ List.mem_map_of_mem inside)
      rw [List.filter_cons, if_pos (beq_self_eq_true r.id), none]
    · have different : ¬(other.id == r.id) = true := by
        intro same
        exact apart (beq_iff_eq.1 same ▸ List.mem_map_of_mem later)
      rw [List.filter_cons, if_neg different, ih distinct later]

theorem rowsOf_eq_nil {q : QuestionText} {table : Option GridTable}
    (sound : ∀ t ∈ table, t.Sound) : Record.rowsOf q table = [] ↔ table = none := by
  cases table with
  | none => exact ⟨fun _ => rfl, fun _ => rfl⟩
  | some table =>
    have rows := (sound table rfl).rows
    simp [Record.rowsOf, rows]

/-- A declaration without the grid flag has no table. -/
theorem table_eq_none {d : Declaration} (sound : d.Sound)
    (unflagged : d.question.directives.grid = false) : d.table = none := by
  cases table : d.table with
  | none => rfl
  | some t =>
    have contrary := sound.flagged t table
    rw [unflagged] at contrary
    cases contrary

theorem any_lays (o : Outline) (id : String) : o.declarations.any (·.question.lays id) =
    ((o.declarations.map Declaration.question).find? (·.lays id)).isSome := by
  rw [Bool.eq_iff_iff, List.any_eq_true, List.find?_isSome]
  simp

theorem find?_lays_eq_none {before : List Declaration} {id : String}
    (fresh : ∀ e ∈ before, e.id ≠ id) :
    (before.map Declaration.question).find? (·.lays id) = none := by
  rw [List.find?_eq_none]
  intro q member laid
  obtain ⟨e, inside, rfl⟩ := List.mem_map.1 member
  simp only [QuestionText.lays, Bool.and_eq_true, beq_iff_eq] at laid
  exact fresh e inside laid.1

/-- The record and the rows that are kept are those of the first declaration exactly if its table
is the attached one. -/
theorem attached_iff {o : Outline} {before after : List Declaration} {d : Declaration}
    (split : o.declarations = before ++ d :: after) (fresh : ∀ e ∈ before, e.id ≠ d.id)
    (sound : d.Sound) (filled : ∀ t ∈ o.lastTable? d.id, t.Sound) :
    (if d.question.directives.grid then o.lastTable? d.id else none) = d.table ∧
      (((o.declarations.map Declaration.question).find? (·.lays d.id)).map fun q =>
        Record.rowsOf q (o.lastTable? d.id)).getD [] = d.rows ↔ o.attached? d.id = d.table := by
  have lays : d.question.lays d.id = d.question.directives.grid := by
    simp [QuestionText.lays, Declaration.id]
  rw [Outline.attached?, any_lays]
  cases flagged : d.question.directives.grid with
  | true =>
    rw [flagged] at lays
    have first : (o.declarations.map Declaration.question).find? (·.lays d.id) =
        some d.question := by
      rw [split, List.map_append, List.find?_append, find?_lays_eq_none fresh, List.map_cons,
        Option.none_or]
      exact List.find?_cons_of_pos lays
    rw [first]
    simp only [if_true, Option.isSome_some, Option.map_some, Option.getD_some, Declaration.rows]
    exact ⟨fun same => same.1, fun same => ⟨same, congrArg _ same⟩⟩
  | false =>
    have own := table_eq_none sound flagged
    have none : d.rows = [] := by
      rw [Declaration.rows, own]
      rfl
    rw [own, none]
    cases found : (o.declarations.map Declaration.question).find? (·.lays d.id) with
    | none => simp
    | some q => simpa using rowsOf_eq_nil filled

/-- What a survey keeps of an identifier. The one record that it may have is built from the first
declaration, with the table of the last block called so if that declaration has the grid flag; no
record is kept only if a row is called so. The first declaration is all that is kept exactly if
the table attached to the identifier is its own. -/
theorem compile_keeps_first_iff (accepted : compile limits sourceId definition = .ok s) :
    ∃ o, Definition.outline limits sourceId definition = .ok o ∧
      ∀ before d after, o.declarations = before ++ d :: after → (∀ e ∈ before, e.id ≠ d.id) →
        (d.id ∈ s.records.map Record.id →
          s.records.filter (·.id == d.id) = [.declaring d.question
            (if d.question.directives.grid then o.lastTable? d.id else none)] ∧
          (s.KeepsFirst d ↔ o.attached? d.id = d.table)) ∧
        (d.id ∈ s.records.map Record.id ∨ d.id ∈ s.rows.map Record.id) := by
  obtain ⟨o, tables, outlined, -, sound, last, tabulated, records, rows⟩ := compile_outline accepted
  refine ⟨o, outlined, fun before d after split fresh => ?_⟩
  have regular := Draft.regular_of_tabulated tabulated
  have questions : o.declarations.map Declaration.question =
      before.map Declaration.question ++ d.question :: after.map Declaration.question := by
    rw [split, List.map_append, List.map_cons]
  have unknown : ∀ e ∈ before.map Declaration.question, e.id ≠ d.question.id := by
    intro q member
    obtain ⟨e, inside, rfl⟩ := List.mem_map.1 member
    exact fresh e inside
  have first := Draft.foldl_add_first (d := { tables := tables })
    (after.map Declaration.question) List.not_mem_nil unknown
  rw [← questions, ← records, ← rows] at first
  obtain ⟨made, somewhere⟩ := first
  refine ⟨fun kept => ?_, somewhere⟩
  have distinct : (s.records.map Record.id).Nodup := by
    rw [records]
    exact (regular.foldl_add _).distinct
  have only := filter_id_of_mem distinct (made kept)
  rw [Record.declaring_id, last] at only
  have brought := Draft.foldl_rowsUnder regular (o.declarations.map Declaration.question) d.id
  rw [← rows, last] at brought
  refine ⟨only, ?_⟩
  have sounds : ∀ t ∈ o.lastTable? d.id, t.Sound := by
    intro t found
    rw [← last] at found
    exact (tabulated _ _ found).2
  rw [← attached_iff split fresh (sound d (split ▸ List.mem_append_right _ List.mem_cons_self))
    sounds]
  constructor
  · intro keeps
    have same := only.symm.trans keeps.record
    exact ⟨Record.declaring_inj (List.cons.inj same).1, brought.symm.trans keeps.rows⟩
  · rintro ⟨table, same⟩
    exact ⟨only.trans (congrArg (fun t => [Record.declaring d.question t]) table),
      brought.trans same⟩

/-- A grid and a question, each declared once more behind it as a question. -/
def redeclaredText : String :=
  "[A]\n\x7btext\x7d\n|grid G||x|R=r|1=c|\n[A!]\nother\n[G]\nlate\n[END]"

theorem compile_keeps_first_grid : ∃ s o before d after,
    compile {} "s" redeclaredText = .ok s ∧ Definition.outline {} "s" redeclaredText = .ok o ∧
    o.declarations = before ++ d :: after ∧ d.id = "G" ∧ "G" ∈ after.map Declaration.id ∧
    s.KeepsFirst d := by
  have outlined : ((Definition.outline {} "s" redeclaredText).toOption.map fun o =>
      o.declarations.map Declaration.id) = some ["A", "G", "A", "G", "END"] := by
    decide +kernel
  have attached : ((Definition.outline {} "s" redeclaredText).toOption.map fun o =>
      (o.declarations[1]?.map Declaration.table) == some (o.attached? "G")) = some true := by
    decide +kernel
  have kept : ((compile {} "s" redeclaredText).toOption.map fun s => s.records.map Record.id) =
      some ["A", "G", "END"] := by
    decide +kernel
  obtain ⟨s, accepted, recordIds⟩ := exists_ok_of_map kept
  obtain ⟨o, outline, first⟩ := compile_keeps_first_iff accepted
  rw [outline] at outlined attached
  obtain ⟨a, rest, split, early, ids⟩ := List.map_eq_cons_iff.1 (Option.some.inj outlined)
  obtain ⟨g, after, rfl, named, ids⟩ := List.map_eq_cons_iff.1 ids
  have fresh : ∀ e ∈ [a], e.id ≠ g.id := by
    rw [List.forall_mem_singleton, early, named]
    decide
  have recorded : g.id ∈ s.records.map Record.id := by
    rw [recordIds, named]
    decide
  have own : o.attached? g.id = g.table := by
    have same := beq_iff_eq.1 (Option.some.inj attached)
    rw [split] at same
    rw [named]
    exact (Option.some.inj same).symm
  refine ⟨s, o, [a], g, after, accepted, outline, split, named, ?_, ?_⟩
  · rw [ids]
    decide
  · exact ((first [a] g after split fresh).1 recorded).2.2 own

/-- Two grids with one identifier. -/
def twoGridsText : String := "|grid G||a|R=r|1=x|\n|grid G||b|S=s|2=y|\n[END]"

/-- The header of the first grid is kept with the table and the rows of the second. -/
theorem first_grid_lost : ∃ s o d after,
    compile {} "s" twoGridsText = .ok s ∧ Definition.outline {} "s" twoGridsText = .ok o ∧
    o.declarations = d :: after ∧ d.id = "G" ∧ "G" ∈ after.map Declaration.id ∧
    (rowsUnder "G" s.rows).map Record.id = ["S"] ∧ d.rows.map Record.id = ["R"] ∧
    ¬s.KeepsFirst d := by
  have outlined : ((Definition.outline {} "s" twoGridsText).toOption.map fun o =>
      o.declarations.map fun d => (d.id, d.rows.map Record.id)) =
      some [("G", ["R"]), ("G", ["S"]), ("END", [])] := by
    decide +kernel
  have kept : ((compile {} "s" twoGridsText).toOption.map fun s =>
      (rowsUnder "G" s.rows).map Record.id) = some ["S"] := by
    decide +kernel
  obtain ⟨s, accepted, under⟩ := exists_ok_of_map kept
  obtain ⟨o, outline, listed⟩ := exists_ok_of_map outlined
  obtain ⟨d, after, split, first, others⟩ := List.map_eq_cons_iff.1 listed
  obtain ⟨named, rows⟩ := Prod.mk.inj first
  have ids : after.map Declaration.id = ["G", "END"] := by
    have fst := congrArg (List.map Prod.fst) others
    rwa [List.map_map] at fst
  refine ⟨s, o, d, after, accepted, outline, split, named, ?_, under, rows, fun keeps => ?_⟩
  · rw [ids]
    decide
  · have same := keeps.rows
    rw [named] at same
    rw [same, rows] at under
    revert under
    decide

end Survey

end Questionnaire
