import Questionnaire.Proofs.Definition.Table
import Questionnaire.Proofs.Survey.Compiled

/-! Drafts of which every identifier stands for one record. They stay so as long as every grid,
when it is taken in, brings only identifiers that are new; and as soon as one grid does not, two
records share an identifier or a row belongs to something that is no grid. -/
namespace Questionnaire

namespace Record

/-- A row stands where its membership says: in the table of a grid among the records. -/
def PlacedIn (r : Record) (records : List Record) : Prop :=
  ∃ grid table index row, grid ∈ records ∧ grid.content = .grid table ∧
    r.membership = some ⟨grid.id, index⟩ ∧ table.rows[index]? = some row ∧ r.id = row.id ∧
    r.content = .gridRow row table.columns

theorem PlacedIn.mono {r : Record} {records more : List Record} (placed : r.PlacedIn records)
    (within : records ⊆ more) : r.PlacedIn more := by
  obtain ⟨grid, table, index, row, member, rest⟩ := placed
  exact ⟨grid, table, index, row, within member, rest⟩

end Record

/-- The identifiers that a grid brings: those of its rows and its own. -/
def GridTable.ids (table : GridTable) : List String := table.rows.map GridRow.id ++ [table.id]

namespace Draft
variable {d : Draft} {q : QuestionText} {table : GridTable}

/-- The table that a question takes. -/
def table? (d : Draft) (q : QuestionText) : Option GridTable :=
  if q.directives.grid then d.tables.get? q.id else none

/-- A grid brings only identifiers that have not been declared yet, each of them once. -/
structure IsNew (d : Draft) (table : GridTable) : Prop where
  distinct : table.ids.Nodup
  undeclared : ∀ id ∈ table.ids, d.declares id = false

instance : Decidable (d.IsNew table) :=
  decidable_of_iff (table.ids.Nodup ∧ ∀ id ∈ table.ids, d.declares id = false)
    ⟨fun ⟨distinct, undeclared⟩ => ⟨distinct, undeclared⟩, fun new => ⟨new.distinct, new.undeclared⟩⟩

/-- Every grid among questions is new when it is taken in. -/
def GridsNew (d : Draft) : List QuestionText → Prop
  | [] => True
  | q :: qs => (∀ table ∈ d.table? q, d.IsNew table) ∧ (d.add q).GridsNew qs

instance : (d : Draft) → (qs : List QuestionText) → Decidable (d.GridsNew qs)
  | _, [] => isTrue trivial
  | d, q :: qs =>
    have := instDecidableGridsNew (d.add q) qs
    inferInstanceAs (Decidable ((∀ table ∈ d.table? q, d.IsNew table) ∧ (d.add q).GridsNew qs))

theorem table?_held (taken : d.table? q = some table) : d.tables.get? q.id = some table := by
  unfold table? at taken
  split at taken
  · exact taken
  · cases taken

/-! ### What a draft keeps -/

theorem add_of_table (taken : d.table? q = some table) :
    d.add q = ({ d with tables := d.tables.erase q.id }.addRows table q.span).push
      (.ofGrid q table) := by
  unfold table? at taken
  simp only [add, taken]

theorem add_of_none (none : d.table? q = none) : d.add q = d.push (.ofQuestion q) := by
  unfold table? at none
  simp only [add, none]

theorem declares_iff {id : String} : d.declares id = true ↔
    id ∈ d.records.map Record.id ∨ id ∈ d.rows.map Record.id := by
  simp [declares]

theorem push_tables (d : Draft) (r : Record) : (d.push r).tables = d.tables := by
  unfold push
  split <;> rfl

theorem push_records (d : Draft) (r : Record) : (d.push r).records = d.records ∨
    (d.push r).records = d.records ++ [r] := by
  unfold push
  split
  · exact .inl rfl
  · exact .inr rfl

theorem push_grows (d : Draft) (r : Record) : d.records <+: (d.push r).records := by
  rcases d.push_records r with same | more
  · exact ⟨[], (List.append_nil _).trans same.symm⟩
  · rw [more]
    exact List.prefix_append _ _

theorem add_grows (d : Draft) (q : QuestionText) :
    d.records <+: (d.add q).records ∧ d.rows <+: (d.add q).rows := by
  cases taken : d.table? q with
  | none =>
    rw [add_of_none taken, push_rows]
    exact ⟨d.push_grows _, List.prefix_rfl⟩
  | some table =>
    rw [add_of_table taken, push_rows]
    exact ⟨push_grows ({ d with tables := d.tables.erase q.id }.addRows table q.span) _,
      List.prefix_append _ _⟩

theorem foldl_add_grows (qs : List QuestionText) (d : Draft) :
    d.records <+: (qs.foldl add d).records ∧ d.rows <+: (qs.foldl add d).rows := by
  induction qs generalizing d with
  | nil => exact ⟨List.prefix_rfl, List.prefix_rfl⟩
  | cons q qs ih =>
    have first := d.add_grows q
    have later := ih (d.add q)
    exact ⟨first.1.trans later.1, first.2.trans later.2⟩

/-- What every draft keeps, whatever it takes in. -/
structure Regular (d : Draft) : Prop where
  tabulated : Definition.Tabulated d.tables
  distinct : (d.records.map Record.id).Nodup
  /-- The table of a grid among the records is used up. -/
  used : ∀ r ∈ d.records, ∀ table, r.content = .grid table → d.tables.get? r.id = none
  member : ∀ r ∈ d.rows, ∃ m, r.membership = some m

theorem regular_of_tabulated {tables : Dict GridTable} (tabulated : Definition.Tabulated tables) :
    Regular { tables := tables } :=
  ⟨tabulated, List.nodup_nil, by simp, by simp⟩

theorem Regular.takes (regular : d.Regular) (taken : d.table? q = some table) :
    table.id = q.id ∧ table.Sound :=
  regular.tabulated _ _ (table?_held taken)

theorem ofQuestion_content (q : QuestionText) (table : GridTable) :
    (Record.ofQuestion q).content ≠ .grid table := by
  unfold Record.ofQuestion
  split <;> simp

theorem mem_ofRow {r : Record} {span : Span} (member : r ∈ table.rows.mapIdx (Record.ofRow table span)) :
    ∃ index row, table.rows[index]? = some row ∧ r = Record.ofRow table span index row := by
  obtain ⟨index, inside, rfl⟩ := List.mem_mapIdx.1 member
  exact ⟨index, _, List.getElem?_eq_getElem inside, rfl⟩

theorem map_id_ofRow (table : GridTable) (span : Span) :
    (table.rows.mapIdx (Record.ofRow table span)).map Record.id = table.rows.map GridRow.id := by
  apply List.ext_getElem?
  intro index
  rw [List.getElem?_map, List.getElem?_mapIdx, List.getElem?_map]
  cases table.rows[index]? <;> rfl

theorem Regular.push {r : Record} (regular : d.Regular)
    (distinct : ((d.push r).records.map Record.id).Nodup)
    (used : ∀ table, r.content = .grid table → d.tables.get? r.id = none) :
    (d.push r).Regular := by
  refine ⟨?_, distinct, ?_, ?_⟩
  · rw [push_tables]
    exact regular.tabulated
  · intro other member table content
    rw [push_tables]
    rcases d.push_records r with same | more
    · exact regular.used other (same ▸ member) table content
    · rw [more, List.mem_append, List.mem_singleton] at member
      rcases member with old | rfl
      · exact regular.used other old table content
      · exact used table content
  · rw [push_rows]
    exact regular.member

/-- The rows of a grid are taken in while its table is used up. -/
theorem Regular.addRows (regular : d.Regular) (table : GridTable) (span : Span) (id : String) :
    ({ d with tables := d.tables.erase id }.addRows table span).Regular where
  tabulated name other held := by
    change (d.tables.erase id).get? name = some other at held
    rw [Dict.get?_erase] at held
    split at held
    · cases held
    · exact regular.tabulated name other held
  distinct := regular.distinct
  used r member other content := by
    change (d.tables.erase id).get? r.id = none
    rw [Dict.get?_erase, regular.used r member other content, ite_self]
  member r inside := by
    rcases List.mem_append.1 inside with old | new
    · exact regular.member r old
    · obtain ⟨index, row, -, rfl⟩ := mem_ofRow new
      exact ⟨_, rfl⟩

theorem Regular.add (regular : d.Regular) (q : QuestionText) : (d.add q).Regular := by
  have distinct := add_distinct (q := q) regular.distinct
  cases taken : d.table? q with
  | none =>
    rw [add_of_none taken] at distinct ⊢
    exact regular.push distinct fun table content => absurd content (ofQuestion_content q table)
  | some table =>
    rw [add_of_table taken] at distinct ⊢
    refine (regular.addRows table q.span q.id).push distinct fun _ _ => ?_
    change (d.tables.erase q.id).get? q.id = none
    rw [Dict.get?_erase, if_pos rfl]

theorem Regular.foldl_add (qs : List QuestionText) (regular : d.Regular) :
    (qs.foldl Draft.add d).Regular := by
  induction qs generalizing d with
  | nil => exact regular
  | cons q qs ih => exact ih (regular.add q)

theorem push_forall {P : Record → Prop} {r : Record} (new : P r)
    (before : ∀ other ∈ d.records ++ d.rows, P other) :
    ∀ other ∈ (d.push r).records ++ (d.push r).rows, P other := by
  unfold push
  split
  · exact before
  · intro other member
    rw [List.append_assoc, List.mem_append, List.cons_append, List.mem_cons] at member
    rcases member with record | rfl | row
    · exact before other (List.mem_append_left _ record)
    · exact new
    · exact before other (List.mem_append_right _ row)

/-- What holds of each kind of record that is made for a question holds of all that a draft has
taken in. -/
theorem foldl_add_forall {P : Record → Prop} (qs : List QuestionText) (regular : d.Regular)
    (question : ∀ q ∈ qs, P (.ofQuestion q))
    (grid : ∀ q ∈ qs, ∀ table : GridTable, table.id = q.id → table.Sound → P (.ofGrid q table) ∧
      ∀ index row, table.rows[index]? = some row → P (.ofRow table q.span index row))
    (before : ∀ r ∈ d.records ++ d.rows, P r) :
    ∀ r ∈ (qs.foldl Draft.add d).records ++ (qs.foldl Draft.add d).rows, P r := by
  induction qs generalizing d with
  | nil => exact before
  | cons q qs ih =>
    obtain ⟨asked, question⟩ := List.forall_mem_cons.1 question
    obtain ⟨laid, grid⟩ := List.forall_mem_cons.1 grid
    refine ih (regular.add q) question grid ?_
    cases taken : d.table? q with
    | none =>
      rw [add_of_none taken]
      exact push_forall asked before
    | some table =>
      obtain ⟨named, sound⟩ := regular.takes taken
      obtain ⟨whole, rows⟩ := laid table named sound
      rw [add_of_table taken]
      refine push_forall whole fun r member => ?_
      rcases List.mem_append.1 member with record | row
      · exact before r (List.mem_append_left _ record)
      · rcases List.mem_append.1 row with old | fresh
        · exact before r (List.mem_append_right _ old)
        · obtain ⟨index, cell, found, rfl⟩ := mem_ofRow fresh
          exact rows index cell found

/-! ### Identifiers kept apart -/

/-- Every identifier of a draft stands for one record, and every row has its place. -/
structure Apart (d : Draft) : Prop where
  distinct : ((d.records ++ d.rows).map Record.id).Nodup
  placed : ∀ r ∈ d.rows, r.PlacedIn d.records

theorem Apart.push {r : Record} (apart : d.Apart) : (d.push r).Apart := by
  unfold Draft.push
  split
  · exact apart
  · next free =>
    have fresh : r.id ∉ (d.records ++ d.rows).map Record.id := by
      intro present
      rw [List.map_append, List.mem_append] at present
      exact free (declares_iff.2 present)
    constructor
    · have moved : (d.records ++ [r] ++ d.rows).Perm (r :: (d.records ++ d.rows)) := by
        rw [List.append_assoc, List.singleton_append]
        exact List.perm_middle
      rw [(moved.map Record.id).nodup_iff, List.map_cons]
      exact List.nodup_cons.2 ⟨fresh, apart.distinct⟩
    · intro row member
      exact (apart.placed row member).mono (List.subset_append_left _ _)

theorem IsNew.absent (new : d.IsNew table) :
    ∀ id ∈ table.ids, id ∉ (d.records ++ d.rows).map Record.id := by
  intro id member present
  rw [List.map_append, List.mem_append] at present
  have declared := declares_iff.2 present
  rw [new.undeclared id member] at declared
  cases declared

/-- The rows of a new grid leave its own identifier free. -/
theorem IsNew.free (new : d.IsNew table) (tables : Dict GridTable) (span : Span) :
    ({ d with tables }.addRows table span).declares table.id = false := by
  refine Bool.eq_false_iff.2 fun declared => ?_
  have own := new.absent table.id (List.mem_append_right _ (List.mem_singleton_self _))
  rw [List.map_append, List.mem_append, not_or] at own
  rcases declares_iff.1 declared with record | row
  · exact own.1 record
  · change table.id ∈ (d.rows ++ _).map Record.id at row
    rw [List.map_append, List.mem_append, map_id_ofRow] at row
    rcases row with old | fresh
    · exact own.2 old
    · obtain ⟨-, -, apart⟩ := List.nodup_append.1 new.distinct
      exact apart _ fresh _ (List.mem_singleton_self _) rfl

/-- A new grid is taken in with all its rows. -/
theorem Apart.addGrid (apart : d.Apart) (taken : d.table? q = some table) (named : table.id = q.id)
    (new : d.IsNew table) : (d.add q).Apart := by
  have free := new.free (d.tables.erase q.id) q.span
  rw [named] at free
  have added : d.add q = { d with
      tables := d.tables.erase q.id
      rows := d.rows ++ table.rows.mapIdx (Record.ofRow table q.span)
      records := d.records ++ [.ofGrid q table] } := by
    rw [add_of_table taken, Draft.push, if_neg (by exact Bool.eq_false_iff.1 free)]
    rfl
  rw [added]
  constructor
  · have ids : ((d.records ++ [Record.ofGrid q table] ++
        (d.rows ++ table.rows.mapIdx (Record.ofRow table q.span))).map Record.id).Perm
        (table.ids ++ (d.records ++ d.rows).map Record.id) := by
      simp only [List.map_append, map_id_ofRow, List.map_cons, List.map_nil, GridTable.ids, named]
      refine List.perm_iff_count.2 fun id => ?_
      change List.count id (_ ++ [q.id] ++ _) = _
      simp only [List.count_append]
      omega
    rw [ids.nodup_iff, List.nodup_append]
    refine ⟨new.distinct, apart.distinct, ?_⟩
    rintro id member other present rfl
    exact new.absent id member present
  · intro r member
    rcases List.mem_append.1 member with old | fresh
    · exact (apart.placed r old).mono (List.subset_append_left _ _)
    · obtain ⟨index, row, found, rfl⟩ := mem_ofRow fresh
      refine ⟨.ofGrid q table, table, index, row, ?_, rfl, ?_, found, rfl, rfl⟩
      · exact List.mem_append_right _ (List.mem_singleton_self _)
      · exact congrArg (fun id => some (Membership.mk id index)) named

theorem Apart.foldl_add {qs : List QuestionText} (regular : d.Regular) (apart : d.Apart)
    (new : d.GridsNew qs) : (qs.foldl Draft.add d).Apart := by
  induction qs generalizing d with
  | nil => exact apart
  | cons q qs ih =>
    obtain ⟨first, later⟩ := new
    refine ih (regular.add q) ?_ later
    cases taken : d.table? q with
    | none =>
      rw [add_of_none taken]
      exact apart.push
    | some table =>
      exact apart.addGrid taken (regular.takes taken).1 (first table taken)

/-- The first row of a table leads to its grid. -/
theorem Apart.grid_of_rows (apart : d.Apart) (some : table.rows ≠ []) {span : Span}
    (rows : table.rows.mapIdx (Record.ofRow table span) ⊆ d.rows) :
    ∃ grid ∈ d.records, grid.id = table.id ∧ ∃ other, grid.content = .grid other := by
  obtain ⟨row, more, first⟩ := List.exists_cons_of_ne_nil some
  have member : Record.ofRow table span 0 row ∈ d.rows := by
    refine rows (List.mem_mapIdx.2 ⟨0, ?_, ?_⟩)
    · simp [first]
    · simp [first]
  obtain ⟨grid, other, index, cell, among, content, membership, -⟩ := apart.placed _ member
  exact ⟨grid, among, (congrArg Membership.grid (Option.some.inj membership)).symm, other, content⟩

/-- A grid that is not new leaves its mark to the end. -/
theorem isNew_of_apart {e : Draft} (regular : d.Regular) (taken : d.table? q = some table)
    (records : (d.add q).records <+: e.records) (rows : (d.add q).rows <+: e.rows)
    (apart : e.Apart) : d.IsNew table := by
  obtain ⟨named, sound⟩ := regular.takes taken
  rw [add_of_table taken, push_rows] at rows
  have kept : d.records ⊆ e.records := ((d.add_grows q).1.trans records).subset
  have distinct := apart.distinct
  rw [List.map_append, List.nodup_append] at distinct
  obtain ⟨recordsDistinct, rowsDistinct, disjoint⟩ := distinct
  have rowIds : (d.rows.map Record.id ++ table.rows.map GridRow.id).Sublist
      (e.rows.map Record.id) := by
    have ids := rows.sublist.map Record.id
    rwa [addRows, List.map_append, map_id_ofRow] at ids
  obtain ⟨-, fresh, apartRows⟩ := List.nodup_append.1 (rowsDistinct.sublist rowIds)
  obtain ⟨grid, among, gridId, other, content⟩ := apart.grid_of_rows sound.rows
    fun r member => rows.subset (List.mem_append_right _ member)
  have gridAmong : table.id ∈ e.records.map Record.id := gridId ▸ List.mem_map_of_mem among
  constructor
  · refine List.nodup_append.2 ⟨fresh, List.nodup_singleton _, ?_⟩
    rintro id row other last rfl
    obtain rfl := List.mem_singleton.1 last
    exact disjoint _ gridAmong _ (rowIds.subset (List.mem_append_right _ row)) rfl
  · intro id brought
    refine Bool.eq_false_iff.2 fun declared => ?_
    rcases List.mem_append.1 brought with row | own
    · rcases declares_iff.1 declared with record | old
      · have present := (List.map_subset Record.id kept) record
        exact disjoint _ present _ (rowIds.subset (List.mem_append_right _ row)) rfl
      · exact apartRows _ old _ row rfl
    · obtain rfl := List.mem_singleton.1 own
      rcases declares_iff.1 declared with record | old
      · obtain ⟨r, member, id⟩ := List.mem_map.1 record
        obtain rfl := List.inj_on_of_nodup_map recordsDistinct (kept member) among (id.trans gridId.symm)
        have gone := regular.used r member other content
        rw [gridId, named, (table?_held taken)] at gone
        cases gone
      · exact disjoint _ gridAmong _ (rowIds.subset (List.mem_append_left _ old)) rfl

/-- The identifiers of a draft are kept apart exactly as long as every grid is new. -/
theorem foldl_add_apart_iff (regular : d.Regular) (apart : d.Apart) (qs : List QuestionText) :
    (qs.foldl add d).Apart ↔ d.GridsNew qs := by
  constructor
  · intro after
    clear apart
    induction qs generalizing d with
    | nil => trivial
    | cons q qs ih =>
      have grows := foldl_add_grows qs (d.add q)
      refine ⟨fun table taken => ?_, ih (regular.add q) after⟩
      exact isNew_of_apart regular taken grows.1 grows.2 after
  · exact apart.foldl_add regular

end Draft

end Questionnaire
