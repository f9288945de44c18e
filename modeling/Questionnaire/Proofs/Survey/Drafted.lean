import Questionnaire.Proofs.Definition.Unrolled
import Questionnaire.Proofs.Survey.Apart

/-! The records of a survey and the headers that they are taken in for. A header gets no record
where its identifier is taken already; one that opens an iteration or marks its end always gets
its record if it is the first to declare its identifier. -/
namespace Questionnaire

/-- A header that belongs to no loop. -/
structure Head.Plain (h : Head) : Prop where
  unannotated : h.directives.loopEntry = none
  unmarked : LoopMarker.ofId? h.id = none

/-- A row of the grid that a header declares. -/
structure Record.LaidBy (r : Record) (h : Head) : Prop where
  grid : h.directives.grid = true
  membership : r.membership.map Membership.grid = some h.id

instance (r : Record) (h : Head) : Decidable (r.LaidBy h) :=
  decidable_of_iff (h.directives.grid = true ∧ r.membership.map Membership.grid = some h.id)
    ⟨fun ⟨grid, membership⟩ => ⟨grid, membership⟩, fun laid => ⟨laid.grid, laid.membership⟩⟩

/-- A header is the first to declare its identifier: no header in front of it has it, and no row
of a grid that stands in front of it or that it declares itself. A grid further behind may well
have such a row. -/
structure Head.Introduces (h : Head) (before : List Head) (rows : List Record) : Prop where
  headers : h.id ∉ before.map Head.id
  rows : ∀ r ∈ rows, r.id = h.id → ∀ grid ∈ before ++ [h], ¬r.LaidBy grid

instance (h : Head) (before : List Head) (rows : List Record) :
    Decidable (h.Introduces before rows) :=
  decidable_of_iff (h.id ∉ before.map Head.id ∧
    ∀ r ∈ rows, r.id = h.id → ∀ grid ∈ before ++ [h], ¬r.LaidBy grid)
    ⟨fun ⟨headers, rows⟩ => ⟨headers, rows⟩, fun new => ⟨new.headers, new.rows⟩⟩

/-- A record that is taken in for a header. -/
structure Record.Of (r : Record) (h : Head) : Prop where
  id_eq : r.id = h.id
  loopEntry : r.directives.loopEntry = h.directives.loopEntry
  unmarked : LoopMarker.ofId? h.id = none → r.marker? = none
  marked : h.directives.grid = false → r.marker? = LoopMarker.ofId? h.id

/-- The records of headers, in their order. Only a plain header may go without one. -/
inductive Drafted : List Head → List Record → Prop
  | nil : Drafted [] []
  | skip {h : Head} {hs : List Head} {rs : List Record} (plain : h.Plain) (rest : Drafted hs rs) :
      Drafted (h :: hs) rs
  | keep {h : Head} {r : Record} {hs : List Head} {rs : List Record} (taken : r.Of h)
      (rest : Drafted hs rs) : Drafted (h :: hs) (r :: rs)

namespace Drafted
variable {h : Head} {hs ks : List Head} {rs : List Record}

theorem append_inv (drafted : Drafted (hs ++ ks) rs) :
    ∃ front behind, rs = front ++ behind ∧ Drafted hs front ∧ Drafted ks behind := by
  induction hs generalizing rs with
  | nil => exact ⟨[], rs, rfl, .nil, drafted⟩
  | cons h hs ih =>
    cases drafted with
    | skip plain rest =>
      obtain ⟨front, behind, rfl, first, second⟩ := ih rest
      exact ⟨front, behind, rfl, .skip plain first, second⟩
    | keep taken rest =>
      obtain ⟨front, behind, rfl, first, second⟩ := ih rest
      exact ⟨_ :: front, behind, rfl, .keep taken first, second⟩

/-- A header that is not plain has its record. -/
theorem cons_inv (drafted : Drafted (h :: hs) rs) (special : ¬h.Plain) :
    ∃ r more, rs = r :: more ∧ r.Of h ∧ Drafted hs more := by
  cases drafted with
  | skip plain rest => exact absurd plain special
  | keep taken rest => exact ⟨_, _, rfl, taken, rest⟩

theorem exists_head (drafted : Drafted hs rs) : ∀ r ∈ rs, ∃ h ∈ hs, r.Of h := by
  induction drafted with
  | nil =>
    intro r member
    cases member
  | skip plain rest ih =>
    intro r member
    obtain ⟨h, inside, taken⟩ := ih r member
    exact ⟨h, List.mem_cons_of_mem _ inside, taken⟩
  | keep taken rest ih =>
    intro r member
    rcases List.mem_cons.1 member with rfl | member
    · exact ⟨_, List.mem_cons_self, taken⟩
    · obtain ⟨h, inside, taken⟩ := ih r member
      exact ⟨h, List.mem_cons_of_mem _ inside, taken⟩

theorem ids_sublist (drafted : Drafted hs rs) :
    (rs.map Record.id).Sublist (hs.map Head.id) := by
  induction drafted with
  | nil => exact .slnil
  | skip plain rest ih => exact .cons _ ih
  | keep taken rest ih =>
    rw [List.map_cons, List.map_cons, taken.id_eq]
    exact .cons_cons _ ih

end Drafted

namespace Draft
variable {d : Draft} {q : QuestionText}

theorem of_ofQuestion (q : QuestionText) : (Record.ofQuestion q).Of q.head := by
  unfold Record.ofQuestion
  split
  · next m found =>
    constructor
    · rfl
    · rfl
    · intro none
      rw [QuestionText.head, found] at none
      contradiction
    · intro _
      exact found.symm
  · next none =>
    constructor
    · rfl
    · rfl
    · intro _
      rfl
    · intro _
      exact none.symm

theorem of_ofGrid (table : GridTable) (gridded : q.directives.grid = true) :
    (Record.ofGrid q table).Of q.head := by
  constructor
  · rfl
  · rfl
  · intro _
    rfl
  · intro plain
    rw [QuestionText.head, gridded] at plain
    contradiction

/-- Taking in a question comes down to pushing its record, behind the rows of its grid. -/
theorem add_push (regular : d.Regular) (q : QuestionText) :
    ∃ (behind : Draft) (r : Record) (more : List Record), r.Of q.head ∧
      behind.records = d.records ∧ behind.rows = d.rows ++ more ∧
      (∀ row ∈ more, row.LaidBy q.head) ∧ d.add q = behind.push r := by
  cases taken : d.table? q with
  | none =>
    refine ⟨d, _, [], of_ofQuestion q, rfl, (List.append_nil _).symm, ?_, add_of_none taken⟩
    intro row member
    cases member
  | some table =>
    have gridded : q.directives.grid = true := by
      cases flag : q.directives.grid with
      | true => rfl
      | false =>
        rw [table?, flag] at taken
        contradiction
    refine ⟨{ d with tables := d.tables.erase q.id }.addRows table q.span, _, _,
      of_ofGrid table gridded, rfl, rfl, ?_, add_of_table taken⟩
    intro row member
    obtain ⟨index, cell, -, rfl⟩ := mem_ofRow member
    exact ⟨gridded, congrArg some (regular.takes taken).1⟩

/-- What a draft has taken in comes from headers: its records, and its rows from grids. -/
structure DrawnFrom (d : Draft) (front : List Head) : Prop where
  records : ∀ r ∈ d.records, r.id ∈ front.map Head.id
  rows : ∀ r ∈ d.rows, ∃ h ∈ front, r.LaidBy h

theorem DrawnFrom.add {front : List Head} (drawn : d.DrawnFrom front) (regular : d.Regular)
    (q : QuestionText) : (d.add q).DrawnFrom (front ++ [q.head]) := by
  obtain ⟨behind, r, more, taken, records, rows, laid, push⟩ := add_push regular q
  constructor
  · intro old member
    rw [List.map_append, List.mem_append]
    rw [push] at member
    rcases behind.push_records r with same | pushed
    · rw [same, records] at member
      exact .inl (drawn.records old member)
    · rw [pushed, records, List.mem_append, List.mem_singleton] at member
      rcases member with member | rfl
      · exact .inl (drawn.records old member)
      · exact .inr (List.mem_singleton.2 taken.id_eq)
  · intro row member
    rw [push, push_rows, rows] at member
    rcases List.mem_append.1 member with old | new
    · obtain ⟨h, inside, placed⟩ := drawn.rows row old
      exact ⟨h, List.mem_append_left _ inside, placed⟩
    · exact ⟨q.head, List.mem_append_right _ (List.mem_singleton_self _), laid row new⟩

/-- Questions get their records in order if those that are not plain are the first to declare
their identifiers. -/
theorem foldl_add_drafted {qs : List QuestionText} {front : List Head} (regular : d.Regular)
    (drawn : d.DrawnFrom front)
    (fresh : ∀ before h after, front ++ qs.map QuestionText.head = before ++ h :: after →
      ¬h.Plain → h.Introduces before (qs.foldl add d).rows) :
    ∃ rs, (qs.foldl add d).records = d.records ++ rs ∧ Drafted (qs.map QuestionText.head) rs := by
  induction qs generalizing d front with
  | nil => exact ⟨[], (List.append_nil _).symm, .nil⟩
  | cons q qs ih =>
    have drawn' := drawn.add regular q
    obtain ⟨behind, r, more, taken, records, rows, -, push⟩ := add_push regular q
    have fresh' : ∀ before h after, (front ++ [q.head]) ++ qs.map QuestionText.head =
        before ++ h :: after → ¬h.Plain →
          h.Introduces before (qs.foldl add (d.add q)).rows := by
      intro before h after split
      rw [List.append_assoc] at split
      exact fresh before h after split
    obtain ⟨rs, whole, drafted⟩ := ih (regular.add q) drawn' fresh'
    rw [List.foldl_cons, List.map_cons]
    cases declared : behind.declares r.id with
    | true =>
      have same : (d.add q).records = d.records := by
        rw [push, Draft.push, if_pos declared, records]
      have plain : q.head.Plain := by
        by_contra special
        have new := fresh front q.head _ rfl special
        rw [taken.id_eq] at declared
        rcases declares_iff.1 declared with record | row
        · rw [records] at record
          obtain ⟨old, member, repeated⟩ := List.mem_map.1 record
          exact new.headers (repeated ▸ drawn.records old member)
        · obtain ⟨old, member, repeated⟩ := List.mem_map.1 row
          have inside : old ∈ (d.add q).rows := by rwa [push, push_rows]
          obtain ⟨grid, listed, placed⟩ := drawn'.rows old inside
          have kept := (foldl_add_grows qs (d.add q)).2.subset inside
          exact new.rows old kept repeated grid listed placed
      rw [same] at whole
      exact ⟨rs, whole, .skip plain drafted⟩
    | false =>
      have pushed : (d.add q).records = d.records ++ [r] := by
        rw [push, Draft.push, if_neg (Bool.eq_false_iff.1 declared), records]
      rw [pushed, List.append_assoc] at whole
      exact ⟨r :: rs, whole, .keep taken drafted⟩

end Draft

end Questionnaire
