import Questionnaire.Proofs.Navigation.Layout
import Questionnaire.Proofs.Survey.Position

/-! Surveys in which every jump leads forward. Those that are laid out as expansion lays them out
are among them. -/
namespace Questionnaire

/-- A record at which a walk reads the bound of a loop: the entry of an iteration or its
marker. -/
def Record.Reads (r : Record) (index : Nat) : Prop :=
  (∃ e, r.directives.loopEntry = some e ∧ e.loopIndex = index) ∨
    ∃ i, r.marker? = some (.continuation index i)

/-- The jumps of a loop lead forward: from the marker of an iteration to the entry of the next
one, which directly follows, and from all of the loop to its end. -/
structure Loop.Forward (s : Survey) (loop : Loop) : Prop where
  follows : ∀ {before after : List Record} {r : Record} {i : Nat},
    s.records = before ++ r :: after → r.marker? = some (.continuation loop.index i) →
    Navigator.nextIteration i ≤ loop.maximum → ∃ entry more, after = entry :: more ∧
      entry.id = loop.iterationEntry (Navigator.nextIteration i) ∧ entry.marker? = none
  encloses : ∀ {before after : List Record} {r : Record}, s.records = before ++ r :: after →
    r.Reads loop.index → before.length < loop.endPosition

def Survey.Forward (s : Survey) : Prop := ∀ loop ∈ s.loops, loop.Forward s

namespace Survey
variable {s : Survey}

theorem split_of_at? {position : Nat} {r : Record} (found : s.at? position = some r) :
    ∃ before after, s.records = before ++ r :: after ∧ before.length = position := by
  obtain ⟨inside, rfl⟩ := List.getElem?_eq_some_iff.1 found
  refine ⟨s.records.take position, s.records.drop (position + 1), ?_, ?_⟩
  · rw [List.getElem_cons_drop, List.take_append_drop]
  · rw [List.length_take, Nat.min_eq_left (Nat.le_of_lt inside)]

theorem position?_of_at? (distinct : (s.records.map Record.id).Nodup) {position : Nat}
    {r : Record} (found : s.at? position = some r) : s.position? r.id = some position := by
  obtain ⟨before, after, split, rfl⟩ := split_of_at? found
  exact position?_of_split distinct split

theorem size_of_split {before after : List Record} {r : Record}
    (split : s.records = before ++ r :: after) : s.size = before.length + 1 + after.length := by
  rw [size, split, List.length_append, List.length_cons]
  omega

end Survey

theorem iterationPlaces_append (loop : Loop) (first : Nat) (its more : List Iteration) :
    iterationPlaces loop first (its ++ more) =
      iterationPlaces loop first its ++ iterationPlaces loop (first + its.length) more := by
  rw [iterationPlaces, List.zipIdx_append, List.flatMap_append]
  rfl

namespace Survey
variable {s : Survey} {blocks : List Block} {r : Record} {index : Nat}

/-- A record at which a bound is read is the entry or the marker of an iteration. -/
theorem LaidOut.reads (layout : s.LaidOut blocks) (member : r ∈ s.records) (reads : r.Reads index) :
    ∃ loop earlier it later finish, .repeated loop (earlier ++ it :: later) finish ∈ blocks ∧
      loop.Expanded s (earlier ++ it :: later) finish ∧ loop.index = index ∧
      (r = it.entry ∨ r = it.marker) := by
  rw [layout.records] at member
  obtain ⟨p, placed, rfl⟩ := List.mem_map.1 member
  obtain ⟨b, listed, member⟩ := List.mem_flatMap.1 placed
  have expanded := layout.expanded b listed
  have silent (bare : p.record.directives.loopEntry = none)
      (unmarked : ∀ i, p.record.marker? ≠ some (.continuation index i)) : False := by
    rcases reads with ⟨e, annotated, -⟩ | ⟨i, marked⟩
    · rw [bare] at annotated
      cases annotated
    · exact unmarked i marked
  cases b with
  | question r =>
    obtain rfl := List.mem_singleton.1 member
    rw [Block.Expanded.eq_1] at expanded
    exact (silent expanded.bare fun i => by simp [expanded.unmarked]).elim
  | repeated loop its finish =>
    rw [Block.Expanded.eq_2] at expanded
    rcases List.mem_append.1 member with inside | last
    · obtain ⟨⟨it, i⟩, numbered, here⟩ := List.mem_flatMap.1 inside
      have written := expanded.expanded it i numbered
      obtain ⟨earlier, later, rfl⟩ := List.append_of_mem (List.fst_mem_of_mem_zipIdx numbered)
      refine ⟨loop, earlier, it, later, finish, listed, expanded, ?_⟩
      simp only [Iteration.places, List.mem_cons, List.mem_append, List.mem_map,
        List.not_mem_nil, or_false] at here
      rcases here with rfl | ⟨r, further, rfl⟩ | rfl
      · obtain ⟨e, annotated, known, -⟩ := written.annotated
        rcases reads with ⟨e', annotated', rfl⟩ | ⟨i, marked⟩
        · obtain rfl := Option.some.inj (annotated.symm.trans annotated')
          exact ⟨known.symm, .inl rfl⟩
        · rw [written.unmarked] at marked
          cases marked
      · have plain := written.further r further
        exact (silent plain.bare fun i => by simp [plain.unmarked]).elim
      · rcases reads with ⟨e, annotated, -⟩ | ⟨i, marked⟩
        · rw [written.marker_bare] at annotated
          cases annotated
        · rw [written.marker] at marked
          cases marked
          exact ⟨rfl, .inr rfl⟩
    · obtain rfl := List.mem_singleton.1 last
      exact (silent expanded.finish_bare fun i => by simp [expanded.finish_marker]).elim

/-- What stands in front of an iteration and behind it. -/
theorem LaidOut.around (layout : s.LaidOut blocks) {loop : Loop} {earlier later : List Iteration}
    {it : Iteration} {finish : Record}
    (listed : .repeated loop (earlier ++ it :: later) finish ∈ blocks) :
    ∃ front back, s.records = front ++ it.entry :: (it.further ++ it.marker ::
      ((iterationPlaces loop (earlier.length + 2) later).map Place.record ++ finish :: back)) := by
  obtain ⟨before, after, rfl⟩ := List.append_of_mem listed
  refine ⟨(before.flatMap Block.places ++ iterationPlaces loop 1 earlier).map Place.record,
    (after.flatMap Block.places).map Place.record, ?_⟩
  rw [layout.records, List.flatMap_append, List.flatMap_cons, Block.places, iterationPlaces_append,
    iterationPlaces_cons, Nat.add_comm 1 earlier.length]
  simp [Iteration.places, Function.comp_def]

/-- A record stands at one place only. -/
theorem length_of_splits (distinct : (s.records.map Record.id).Nodup)
    {before after before' after' : List Record} {r' : Record} (split : s.records = before ++ r :: after)
    (split' : s.records = before' ++ r' :: after') (same : r.id = r'.id) :
    before.length = before'.length := by
  have place := position?_of_split distinct split
  rw [same, position?_of_split distinct split'] at place
  exact (Option.some.inj place).symm

theorem Linked.endPosition_eq (linked : s.Linked) (distinct : (s.records.map Record.id).Nodup)
    {loop : Loop} (described : loop ∈ s.loops) {before after : List Record} {finish : Record}
    (split : s.records = before ++ finish :: after)
    (named : finish.id = LoopMarker.id (.endOfLoop loop.index)) : loop.endPosition = before.length := by
  obtain ⟨last, found, same⟩ := Option.map_eq_some_iff.1 (linked.at?_endPosition described)
  obtain ⟨before', after', split', length⟩ := split_of_at? found
  rw [← length]
  exact length_of_splits distinct split' split (same.trans named.symm)

/-- The jumps of a survey that is laid out lead forward. -/
theorem LaidOut.forward (layout : s.LaidOut blocks) (linked : s.Linked)
    (distinct : (s.records.map Record.id).Nodup) : s.Forward := by
  intro loop described
  have inside {r : Record} (member : r ∈ s.records) (reads : r.Reads loop.index) :
      ∃ earlier it later finish, .repeated loop (earlier ++ it :: later) finish ∈ blocks ∧
        loop.Expanded s (earlier ++ it :: later) finish ∧ (r = it.entry ∨ r = it.marker) := by
    obtain ⟨other, earlier, it, later, finish, listed, expanded, same, place⟩ :=
      layout.reads member reads
    have unique := layout.loops_unique linked distinct
    obtain rfl := unique _ (expanded.described (by simp)) _ described same
    exact ⟨earlier, it, later, finish, listed, expanded, place⟩
  constructor
  case follows =>
    intro before after r i split marked allowed
    obtain ⟨earlier, it, later, finish, listed, expanded, place⟩ :=
      inside (by rw [split]; simp) (.inr ⟨i, marked⟩)
    obtain ⟨front, back, records⟩ := layout.around listed
    have written := expanded.expanded it (earlier.length + 1)
      (List.mem_zipIdx_iff_le_and_getElem?_sub.2 ⟨by omega, by simp⟩)
    obtain rfl : r = it.marker := by
      rcases place with rfl | rfl
      · rw [written.unmarked] at marked
        cases marked
      · rfl
    obtain rfl : earlier.length + 1 = i := by
      rw [written.marker] at marked
      cases marked
      rfl
    have count := expanded.maximum
    have counted := expanded.counted
    rw [List.length_append, List.length_cons] at count
    have successor : Navigator.nextIteration (earlier.length + 1) = earlier.length + 2 :=
      Nat.mod_eq_of_lt (by omega)
    rw [successor] at allowed ⊢
    cases later with
    | nil =>
      rw [List.length_nil] at count
      omega
    | cons next later =>
      have written := expanded.expanded next (earlier.length + 2)
        (List.mem_zipIdx_iff_le_and_getElem?_sub.2 ⟨by omega, by simp⟩)
      obtain ⟨more, split'⟩ : ∃ more, s.records =
          (front ++ it.entry :: it.further) ++ it.marker :: next.entry :: more := by
        rw [iterationPlaces_cons, Iteration.places, List.cons_append, List.map_cons] at records
        exact ⟨_, by rw [records]; simp; rfl⟩
      have head := (successor?_of_split distinct split).symm.trans
        (successor?_of_split distinct split')
      obtain ⟨more, behind⟩ := List.head?_eq_some_iff.1 head
      exact ⟨next.entry, more, behind, written.entry_id, written.unmarked⟩
  case encloses =>
    intro before after r split reads
    obtain ⟨earlier, it, later, finish, listed, expanded, place⟩ :=
      inside (by rw [split]; simp) reads
    obtain ⟨front, back, records⟩ := layout.around listed
    let passed := front ++ it.entry :: (it.further ++ it.marker ::
      (iterationPlaces loop (earlier.length + 2) later).map Place.record)
    have closed : s.records = passed ++ finish :: back := by simp [records, passed]
    have finished : loop.endPosition = passed.length :=
      linked.endPosition_eq distinct described closed expanded.finish_id
    have length : passed.length = front.length + 1 + it.further.length + 1 +
        (iterationPlaces loop (earlier.length + 2) later).length := by
      simp [passed]
      omega
    rcases place with rfl | rfl
    · have here := length_of_splits distinct split records rfl
      omega
    · obtain ⟨behind, marked⟩ : ∃ behind, s.records =
          (front ++ it.entry :: it.further) ++ it.marker :: behind :=
        ⟨_, by rw [records, List.append_assoc, List.cons_append]⟩
      have here := length_of_splits distinct split marked rfl
      rw [List.length_append, List.length_cons] at here
      omega

end Survey
end Questionnaire
