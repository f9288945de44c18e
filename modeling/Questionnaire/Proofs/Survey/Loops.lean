import Questionnaire.Proofs.Definition.Numbered
import Questionnaire.Proofs.Navigation.Described
import Questionnaire.Proofs.Navigation.Layout
import Questionnaire.Proofs.Survey.Drafted
import Questionnaire.Proofs.Survey.Position

/-! The loops of a compiled survey. The records of a block stand behind each other, iteration
by iteration, and exactly one loop describes them, so that no move comes to a loop that is not
described. -/
namespace Questionnaire

open Text Definition

def Iteration.records (it : Iteration) : List Record := it.entry :: (it.further ++ [it.marker])

/-- The records of an iteration, taken in for the headers of its copy of the body: the first
header has its record, which carries the annotation, and the marker stands behind all others. -/
structure Iteration.TakenFrom (it : Iteration) (loop : LoopHeader) (iteration : Nat)
    (copy : List Char) : Prop where
  first : (heads (endsLine copy)).head?.map Head.id = some it.entry.id
  ids : ((it.entry :: it.further).map Record.id).Sublist ((heads (endsLine copy)).map Head.id)
  annotated : ∃ stem, it.entry.directives.loopEntry =
    some ⟨loop.index, loop.bound, loop.maximum, iteration, stem⟩
  navigable : ∀ r ∈ it.entry :: it.further, r.marker? = none
  unannotated : ∀ r ∈ it.further ++ [it.marker], r.directives.loopEntry = none
  marker : it.marker.marker? = some (.continuation loop.index iteration)
  marker_id : it.marker.id = LoopMarker.id (.continuation loop.index iteration)

/-- A loop that works: it is the only one with its number, its records stand behind each other
between others, and it knows its bound, its maximum, its first record and its end marker. -/
structure Loop.Works (loop : Loop) (s : Survey) (header : LoopHeader) (b : LoopBlock)
    (before : List Record) (its : List Iteration) (ending : Record)
    (after : List Record) : Prop where
  only : s.loops.filter (·.index == header.index) = [loop]
  bound : loop.boundSource = header.bound
  maximum : loop.maximum = header.maximum
  records : s.records = before ++ (its.flatMap Iteration.records ++ ending :: after)
  iterations : List.Forall₂ (fun i it => it.TakenFrom header (i + 1) (b.copy (i + 1)))
    (List.range header.maximum) its
  ending_marker : ending.marker? = some (.endOfLoop header.index)
  ending_id : ending.id = LoopMarker.id (.endOfLoop header.index)
  location : loop.location = before.length
  endPosition : loop.endPosition = (before ++ its.flatMap Iteration.records).length

/-! ### Records of a block -/

namespace Drafted
variable {loop : LoopHeader} {hs : List Head} {rs : List Record}

theorem marker_not_plain {m : LoopMarker} (fits : m.Fits) : ¬m.head.Plain := by
  intro plain
  have none := plain.unmarked
  rw [LoopMarker.head, LoopMarker.ofId?_id fits] at none
  contradiction

/-- The record of a marker is one. -/
theorem marker_of {m : LoopMarker} {r : Record} (taken : r.Of m.head) (fits : m.Fits) :
    r.marker? = some m ∧ r.id = m.id ∧ r.directives.loopEntry = none := by
  refine ⟨?_, taken.id_eq, taken.loopEntry⟩
  rw [taken.marked rfl]
  exact LoopMarker.ofId?_id fits

theorem iteration {i : Nat} {copy : List Char} (drafted : Drafted hs rs)
    (iterates : Iterates loop i copy hs) (fits : (LoopMarker.continuation loop.index i).Fits) :
    ∃ it : Iteration, rs = it.records ∧ it.TakenFrom loop i copy := by
  obtain ⟨annotated, ids, unannotated, unmarked⟩ := iterates
  rename_i entry further
  have special : ¬entry.Plain := by
    intro plain
    have none := plain.unannotated
    rw [annotated.entry] at none
    contradiction
  obtain ⟨first, more, rfl, entered, drafted⟩ := cons_inv drafted special
  obtain ⟨front, behind, rfl, inside, last⟩ := append_inv drafted
  obtain ⟨marker, rest, rfl, closing, none⟩ := cons_inv last (marker_not_plain fits)
  cases none
  obtain ⟨marked, named, bare⟩ := marker_of closing fits
  obtain ⟨entryUnmarked, furtherUnmarked⟩ := List.forall_mem_cons.1 unmarked
  refine ⟨⟨first, front, marker⟩, rfl, ?_⟩
  constructor
  · rw [← List.head?_map, ← ids, entered.id_eq]
    rfl
  · rw [← ids, List.map_cons, List.map_cons, entered.id_eq]
    exact .cons_cons _ inside.ids_sublist
  · exact ⟨_, entered.loopEntry.trans annotated.entry⟩
  · refine List.forall_mem_cons.2 ⟨entered.unmarked entryUnmarked, ?_⟩
    intro r member
    obtain ⟨h, listed, taken⟩ := inside.exists_head r member
    exact taken.unmarked (furtherUnmarked h listed)
  · intro r member
    rw [List.mem_append, List.mem_singleton] at member
    rcases member with member | rfl
    · obtain ⟨h, listed, taken⟩ := inside.exists_head r member
      exact taken.loopEntry.trans (unannotated h listed)
    · exact bare
  · exact marked
  · exact named

theorem iterations {b : LoopBlock} {is : List Nat} {hss : List (List Head)}
    (drafted : Drafted hss.flatten rs)
    (iterations : List.Forall₂ (fun i hs => Iterates loop (i + 1) (b.copy (i + 1)) hs) is hss)
    (fits : ∀ i ∈ is, (LoopMarker.continuation loop.index (i + 1)).Fits) :
    ∃ its : List Iteration, rs = its.flatMap Iteration.records ∧
      List.Forall₂ (fun i it => it.TakenFrom loop (i + 1) (b.copy (i + 1))) is its := by
  induction iterations generalizing rs with
  | nil =>
    cases drafted
    exact ⟨[], rfl, .nil⟩
  | cons iterates _ ih =>
    obtain ⟨fit, fits⟩ := List.forall_mem_cons.1 fits
    obtain ⟨front, behind, rfl, first, later⟩ := append_inv drafted
    obtain ⟨it, rfl, taken⟩ := first.iteration iterates fit
    obtain ⟨its, rfl, further⟩ := ih later fits
    exact ⟨it :: its, rfl, .cons taken further⟩

end Drafted

/-- Of the records of iterations only the first ones are annotated, each with its iteration. -/
theorem annotated_iterations {loop : LoopHeader} {b : LoopBlock} {is : List Nat}
    {its : List Iteration}
    (taken : List.Forall₂ (fun i it => it.TakenFrom loop (i + 1) (b.copy (i + 1))) is its) :
    ∀ r ∈ its.flatMap Iteration.records, ∀ e, r.directives.loopEntry = some e →
      ∃ i ∈ is, e.iteration = i + 1 := by
  induction taken with
  | nil =>
    intro r member
    cases member
  | @cons i it is its first _ ih =>
    intro r member e annotated
    rcases List.mem_append.1 member with inside | later
    · rcases List.mem_cons.1 inside with rfl | behind
      · obtain ⟨stem, entry⟩ := first.annotated
        rw [entry] at annotated
        cases annotated
        exact ⟨i, List.mem_cons_self, rfl⟩
      · rw [first.unannotated r behind] at annotated
        contradiction
    · obtain ⟨j, listed, same⟩ := ih r later e annotated
      exact ⟨j, List.mem_cons_of_mem _ listed, same⟩

/-! ### The loop that describes a block -/

theorem Draft.loopAt?_some {records : List Record} {r : Record} {position : Nat} {loop : Loop}
    (begins : loopAt? records r position = some loop) :
    ∃ e, r.directives.loopEntry = some e ∧ e.iteration = 1 ∧ loop.index = e.loopIndex := by
  simp only [loopAt?, Option.bind_eq_bind, Option.bind_eq_some_iff] at begins
  obtain ⟨e, annotated, last, -, built⟩ := begins
  obtain ⟨annotated, first⟩ := Option.filter_eq_some_iff.1 annotated
  cases built
  exact ⟨e, annotated, by simpa using first, rfl⟩

/-- A loop is the only one with its number if no other record begins one of that number. -/
theorem Survey.Linked.filter_loops {s : Survey} (linked : s.Linked) {before after : List Record}
    {first : Record} {e : LoopEntry} {last : Nat} (records : s.records = before ++ first :: after)
    (annotated : first.directives.loopEntry = some e) (begins : e.iteration = 1)
    (finish : s.records.findIdx? (·.id == LoopMarker.id (.endOfLoop e.loopIndex)) = some last)
    (others : ∀ r ∈ before ++ after, ∀ e', r.directives.loopEntry = some e' → e'.iteration = 1 →
      e'.loopIndex ≠ e.loopIndex) :
    s.loops.filter (·.index == e.loopIndex) =
      [⟨e.loopIndex, before.length, e.bound, e.maximum, none, e.stem, last⟩] := by
  have built : Draft.loopAt? s.records first before.length =
      some ⟨e.loopIndex, before.length, e.bound, e.maximum, none, e.stem, last⟩ := by
    have same : (e.iteration == 1) = true := beq_iff_eq.2 begins
    rw [Draft.loopAt?, annotated, Option.filter_some, if_pos same]
    simp only [Option.bind_eq_bind, Option.bind_some, finish]
    rfl
  have silent (rs : List Record) (apart : ∀ r ∈ rs, r ∈ before ++ after) (shift : Nat → Nat) :
      ((rs.mapIdx fun position r => Draft.loopAt? s.records r (shift position)).filterMap id).filter
        (·.index == e.loopIndex) = [] := by
    rw [List.filter_eq_nil_iff]
    intro loop member same
    obtain ⟨_, listed, rfl⟩ := List.mem_filterMap.1 member
    obtain ⟨position, bound, begun⟩ := List.mem_mapIdx.1 listed
    obtain ⟨e', annotated', one, index⟩ := Draft.loopAt?_some begun
    rw [beq_iff_eq.1 same] at index
    exact others _ (apart _ (List.getElem_mem bound)) e' annotated' one index.symm
  have front := silent before (fun r member => List.mem_append_left _ member) id
  have behind := silent after (fun r member => List.mem_append_right _ member)
    (· + 1 + before.length)
  rw [linked]
  conv_lhs =>
    enter [2, 2, 2]
    rw [records]
  rw [List.mapIdx_append, List.mapIdx_cons, List.filterMap_append, List.filter_append,
    List.filterMap_cons]
  simp only [id_eq] at front behind ⊢
  rw [front, Nat.zero_add, built]
  simp only [List.filter_cons, beq_self_eq_true, if_true, behind, List.nil_append]

/-! ### Compiled surveys -/

namespace Definition

/-- The headers of a definition as they are read once its loops are unrolled. -/
def declaredHeads (limits : Limits) (sourceId definition : String) : List Head :=
  match expandLoops limits sourceId (stripComments definition) with
  | .ok text => heads text.toList
  | .error _ => []

theorem declaredHeads_eq_chars (limits : Limits) (sourceId definition : String) :
    declaredHeads limits sourceId definition =
      ((unrollAll limits sourceId 0 []
        ((lines definition.toList).flatMap withoutComment)).toOption.map heads).getD [] := by
  rw [declaredHeads, expandLoops, stripComments, String.toList_ofList]
  cases unrollAll limits sourceId 0 [] ((lines definition.toList).flatMap withoutComment) with
  | error e => rfl
  | ok text => exact congrArg heads String.toList_ofList

theorem loopBlocks_length_le (cs : List Char) : (loopBlocks cs).length ≤ cs.length := by
  induction h : cs.length using Nat.strongRecOn generalizing cs with
  | _ n ih =>
    subst h
    rw [loopBlocks.eq_def]
    split
    · exact Nat.zero_le _
    · next found =>
      have shorter := LoopBlock.find?_length found
      have least := ih _ shorter _ rfl
      rw [List.length_cons]
      omega

theorem withoutComment_length_le (line : List Char) :
    (withoutComment line).length ≤ line.length := by
  have short : (lineEnd line).length ≤ line.reverse.length := by
    unfold lineEnd
    split
    · next whole => rw [whole]; exact Nat.le_add_left 2 _
    · next whole => rw [whole]; exact Nat.le_add_left 1 _
    · exact Nat.zero_le _
  rw [List.length_reverse] at short
  unfold withoutComment
  split
  · exact short
  · exact Nat.le_refl _

theorem lines_flatten (cs : List Char) : (lines cs).flatten = cs := by
  fun_induction lines cs with
  | case1 => rfl
  | case2 c rest ih => rw [List.flatten_cons, ih, takeLine_append]

theorem stripComments_length_le (definition : String) :
    (stripComments definition).toList.length ≤ definition.toList.length := by
  have shorter (ls : List (List Char)) :
      (ls.flatMap withoutComment).length ≤ ls.flatten.length := by
    induction ls with
    | nil => exact Nat.le_refl _
    | cons line ls ih =>
      rw [List.flatMap_cons, List.flatten_cons, List.length_append, List.length_append]
      exact Nat.add_le_add (withoutComment_length_le line) ih
  rw [stripComments, String.toList_ofList]
  exact (shorter _).trans (Nat.le_of_eq (congrArg _ (lines_flatten _)))

theorem length_le_utf8ByteSize (s : String) : s.toList.length ≤ s.utf8ByteSize := by
  have bytes (cs : List Char) : cs.length ≤ (String.ofList cs).utf8ByteSize := by
    induction cs with
    | nil => exact Nat.zero_le _
    | cons c cs ih =>
      have first := c.utf8Size_pos
      rw [← List.singleton_append, String.ofList_append, String.utf8ByteSize_append,
        List.length_append]
      have one : (String.ofList [c]).utf8ByteSize = c.utf8Size := String.utf8ByteSize_singleton
      simp only [List.length_singleton, one]
      omega
  have whole := bytes s.toList
  rwa [String.ofList_toList] at whole

end Definition

namespace Survey
variable {s : Survey} {limits : Limits} {sourceId definition : String}

/-- Nothing that the expansion of loops depends on is declared twice: the header that opens an
iteration is the first to declare its identifier, and no row is named like a marker. -/
structure Unambiguous (s : Survey) (hs : List Head) : Prop where
  openings : ∀ before h after, hs = before ++ h :: after → h.directives.loopEntry ≠ none →
    h.Introduces before s.rows
  unmarked : ∀ r ∈ s.rows, LoopMarker.ofId? r.id = none

/-- Headers behind others, each of which introduces its identifier if it opens an iteration. -/
def IntroducedFrom (rows : List Record) : (before hs : List Head) → Prop
  | _, [] => True
  | before, h :: hs => (h.directives.loopEntry ≠ none → h.Introduces before rows) ∧
    IntroducedFrom rows (before ++ [h]) hs

instance (rows : List Record) :
    (before hs : List Head) → Decidable (IntroducedFrom rows before hs)
  | _, [] => isTrue trivial
  | before, h :: hs =>
    have := instDecidableIntroducedFrom rows (before ++ [h]) hs
    inferInstanceAs (Decidable ((h.directives.loopEntry ≠ none → h.Introduces before rows) ∧
      IntroducedFrom rows (before ++ [h]) hs))

theorem introducedFrom_iff {rows : List Record} {front hs : List Head} :
    IntroducedFrom rows front hs ↔ ∀ before h after, hs = before ++ h :: after →
      h.directives.loopEntry ≠ none → h.Introduces (front ++ before) rows := by
  induction hs generalizing front with
  | nil => simp [IntroducedFrom]
  | cons first hs ih =>
    rw [IntroducedFrom, ih]
    constructor
    · rintro ⟨here, later⟩ before h after split
      cases before with
      | nil =>
        obtain rfl := (List.cons.inj split).1
        rwa [List.append_nil]
      | cons other before =>
        obtain rfl := (List.cons.inj split).1
        have introduces := later before h after (List.cons.inj split).2
        rwa [List.append_assoc] at introduces
    · intro all
      refine ⟨?_, fun before h after split => ?_⟩
      · have here := all [] first hs rfl
        rwa [List.append_nil] at here
      · have later := all (first :: before) h after (congrArg _ split)
        rwa [List.append_assoc]

instance (s : Survey) (hs : List Head) : Decidable (s.Unambiguous hs) :=
  decidable_of_iff (IntroducedFrom s.rows [] hs ∧ ∀ r ∈ s.rows, LoopMarker.ofId? r.id = none)
    ⟨fun ⟨openings, unmarked⟩ => ⟨introducedFrom_iff.1 openings, unmarked⟩,
      fun unambiguous => ⟨introducedFrom_iff.2 unambiguous.openings, unambiguous.unmarked⟩⟩

theorem compile_ok (accepted : compile limits sourceId definition = .ok s) :
    definition.utf8ByteSize ≤ limits.maxDefinitionBytes ∧
      ∃ (text : String) (qs : List QuestionText) (tables : Dict GridTable),
      expandLoops limits sourceId (stripComments definition) = .ok text ∧
      qs.map QuestionText.head = heads text.toList ∧ Tabulated tables ∧
      s.records = (qs.foldl Draft.add { tables := tables }).records ∧
      s.rows = (qs.foldl Draft.add { tables := tables }).rows := by
  simp only [compile, bind, Except.bind, pure, Except.pure] at accepted
  split at accepted
  · contradiction
  · next small =>
    split at accepted
    · contradiction
    · next text expanded =>
      split at accepted
      · contradiction
      · next grids extracted =>
        split at accepted
        · contradiction
        · cases accepted
          exact ⟨Nat.le_of_not_lt small, text, _, grids.tables, expanded,
            extractGrids_heads extracted, extractGrids_tabulated extracted, rfl, rfl⟩

/-- A definition no longer than a word counts has no more blocks than a word counts. -/
theorem expands_of_compile (accepted : compile limits sourceId definition = .ok s)
    (words : limits.maxDefinitionBytes ≤ largestUInt64)
    (regular : Regular 0 0 [] (stripComments definition).toList) :
    Expands 0 0 (loopBlocks (stripComments definition).toList)
      (declaredHeads limits sourceId definition) := by
  obtain ⟨small, text, -, -, expanded, -, -, -, -⟩ := compile_ok accepted
  have fits : 0 + (loopBlocks (stripComments definition).toList).length ≤ largestUInt64 + 1 := by
    have blocks := loopBlocks_length_le (stripComments definition).toList
    have shorter := stripComments_length_le definition
    have bytes := length_le_utf8ByteSize definition
    omega
  rw [declaredHeads, expanded]
  obtain ⟨unrolled, done, rfl⟩ : ∃ unrolled,
      unrollAll limits sourceId 0 [] (stripComments definition).toList = .ok unrolled ∧
        String.ofList unrolled = text := by
    unfold expandLoops at expanded
    cases outcome : unrollAll limits sourceId 0 [] (stripComments definition).toList with
    | error e =>
      rw [outcome] at expanded
      contradiction
    | ok unrolled =>
      rw [outcome] at expanded
      exact ⟨unrolled, rfl, Except.ok.inj expanded⟩
  have expands := regular.expands done fits
  rwa [← String.toList_ofList (l := unrolled)] at expands

theorem drafted_of_compile (accepted : compile limits sourceId definition = .ok s)
    {blocks : List LoopBlock}
    (expands : Expands 0 0 blocks (declaredHeads limits sourceId definition))
    (unambiguous : s.Unambiguous (declaredHeads limits sourceId definition)) :
    Drafted (declaredHeads limits sourceId definition) s.records := by
  obtain ⟨-, text, qs, tables, expanded, questions, tabulated, records, rows⟩ := compile_ok accepted
  have declared : declaredHeads limits sourceId definition = qs.map QuestionText.head := by
    rw [declaredHeads, expanded, questions]
  rw [declared] at expands unambiguous ⊢
  -- A header that is not plain opens an iteration or is a marker, which comes up once only.
  have fresh : ∀ before h after, [] ++ qs.map QuestionText.head = before ++ h :: after →
      ¬h.Plain → h.Introduces before (qs.foldl Draft.add { tables := tables }).rows := by
    intro before h after split special
    rw [List.nil_append] at split
    rw [← rows]
    by_cases annotated : h.directives.loopEntry = none
    · cases marked : LoopMarker.ofId? h.id with
      | none => exact absurd ⟨annotated, marked⟩ special
      | some m =>
        constructor
        · intro repeated
          obtain ⟨other, member, same⟩ := List.mem_map.1 repeated
          have once := expands.markers_nodup
          rw [split, List.filterMap_append, List.filterMap_cons, marked, List.nodup_append] at once
          refine once.2.2 m (List.mem_filterMap.2 ⟨other, member, ?_⟩) m List.mem_cons_self rfl
          rw [same, marked]
        · intro r row same
          have unmarked := unambiguous.unmarked r row
          rw [same, marked] at unmarked
          contradiction
    · exact unambiguous.openings before h after split annotated
  have regular := Draft.regular_of_tabulated tabulated
  have drawn : ({ tables := tables } : Draft).DrawnFrom [] := by
    constructor
    · intro r member
      cases member
    · intro r member
      cases member
  obtain ⟨rs, whole, drafted⟩ := Draft.foldl_add_drafted regular drawn fresh
  rw [List.nil_append] at whole
  rwa [records, whole]

/-- The records of a block between the others, of which none speaks of its loop. -/
structure KeepsBlock (s : Survey) (header : LoopHeader) (b : LoopBlock) (before : List Record)
    (its : List Iteration) (ending : Record) (after : List Record) : Prop where
  records : s.records = before ++ (its.flatMap Iteration.records ++ ending :: after)
  iterations : List.Forall₂ (fun i it => it.TakenFrom header (i + 1) (b.copy (i + 1)))
    (List.range header.maximum) its
  ending_marker : ending.marker? = some (.endOfLoop header.index)
  ending_id : ending.id = LoopMarker.id (.endOfLoop header.index)
  ending_unannotated : ending.directives.loopEntry = none
  outside : ∀ r ∈ before ++ after, ∀ e, r.directives.loopEntry = some e →
    e.loopIndex ≠ header.index

namespace KeepsBlock
variable {header : LoopHeader} {b : LoopBlock} {before : List Record} {its later : List Iteration}
  {it : Iteration} {ending : Record} {after : List Record}

theorem exists_first (keeps : KeepsBlock s header b before its ending after)
    (some : 1 ≤ header.maximum) : ∃ it later, its = it :: later := by
  cases its with
  | nil =>
    have count := keeps.iterations.length_eq
    rw [List.length_range, List.length_nil] at count
    omega
  | cons it later => exact ⟨it, later, rfl⟩

/-- The first iteration has the number one, and all others have higher ones. -/
theorem first (keeps : KeepsBlock s header b before (it :: later) ending after) :
    it.TakenFrom header 1 (b.copy 1) ∧
      ∀ r ∈ later.flatMap Iteration.records, ∀ e, r.directives.loopEntry = some e →
        e.iteration ≠ 1 := by
  have iterations := keeps.iterations
  cases maximum : header.maximum with
  | zero =>
    rw [maximum] at iterations
    cases iterations
  | succ n =>
    rw [maximum, List.range_succ_eq_map] at iterations
    cases iterations with
    | cons first further =>
      refine ⟨first, fun r member e annotated one => ?_⟩
      obtain ⟨i, listed, same⟩ := annotated_iterations further r member e annotated
      obtain ⟨j, -, rfl⟩ := List.mem_map.1 listed
      omega

/-- No other record begins a loop with the number of the block. -/
theorem others (keeps : KeepsBlock s header b before (it :: later) ending after) :
    ∀ r ∈ before ++ ((it.further ++ [it.marker]) ++ (later.flatMap Iteration.records ++
      ending :: after)), ∀ e, r.directives.loopEntry = some e → e.iteration = 1 →
        e.loopIndex ≠ header.index := by
  obtain ⟨first, further⟩ := keeps.first
  intro r member e annotated one
  rcases List.mem_append.1 member with early | member
  · exact keeps.outside r (List.mem_append_left _ early) e annotated
  · rcases List.mem_append.1 member with inside | member
    · rw [first.unannotated r inside] at annotated
      contradiction
    · rcases List.mem_append.1 member with among | member
      · exact absurd one (further r among e annotated)
      · rcases List.mem_cons.1 member with rfl | late
        · rw [keeps.ending_unannotated] at annotated
          contradiction
        · exact keeps.outside r (List.mem_append_right _ late) e annotated

end KeepsBlock

section Loops
variable {hs : List Head} {blocks : List LoopBlock} (compiled : s.Compiled)
  (expands : Expands 0 0 blocks hs) (drafted : Drafted hs s.records)

include expands drafted in
theorem exists_keepsBlock {k : Nat} {b : LoopBlock} {header : LoopHeader}
    (listed : blocks[k]? = some b) (shape : header.Of b) (index : header.index = k)
    (iterated : 1 ≤ header.maximum) :
    ∃ before its ending after, KeepsBlock s header b before its ending after := by
  obtain ⟨front, behind, hss, loop, same, numbered, fits, iterations, split, apart⟩ :=
    expands.at_block listed (shape.count ▸ iterated)
  rw [Nat.zero_add] at numbered fits split apart
  obtain rfl : loop = header := same.eq shape (numbered.trans index.symm)
  subst index
  rw [split] at drafted
  obtain ⟨before, rest, records, first, drafted⟩ := Drafted.append_inv drafted
  obtain ⟨inside, rest, rfl, middle, drafted⟩ := Drafted.append_inv drafted
  obtain ⟨ending, after, rfl, closing, last⟩ :=
    Drafted.cons_inv drafted (Drafted.marker_not_plain (m := .endOfLoop loop.index) fits)
  obtain ⟨marked, named, bare⟩ := Drafted.marker_of closing fits
  obtain ⟨its, rfl, taken⟩ := Drafted.iterations middle iterations (shape.fits fits)
  refine ⟨before, its, ending, after, records, taken, marked, named, bare, ?_⟩
  intro r member e annotated concerned
  have origin : ∃ h ∈ front ++ behind, r.Of h := by
    rcases List.mem_append.1 member with early | late
    · obtain ⟨h, listed, of⟩ := first.exists_head r early
      exact ⟨h, List.mem_append_left _ listed, of⟩
    · obtain ⟨h, listed, of⟩ := last.exists_head r late
      exact ⟨h, List.mem_append_right _ listed, of⟩
  obtain ⟨h, listed, of⟩ := origin
  apply apart h listed
  rw [← concerned]
  exact .entry (of.loopEntry.symm.trans annotated)

include compiled expands drafted

/-- A block with an iteration has its loop. -/
theorem exists_works {k : Nat} {b : LoopBlock} {header : LoopHeader} (listed : blocks[k]? = some b)
    (shape : header.Of b) (index : header.index = k) (some : 1 ≤ header.maximum) :
    ∃ loop before its ending after, Loop.Works loop s header b before its ending after := by
  obtain ⟨before, its, ending, after, keeps⟩ :=
    exists_keepsBlock expands drafted listed shape index some
  obtain ⟨it, later, rfl⟩ := keeps.exists_first some
  obtain ⟨stem, annotated⟩ := keeps.first.1.annotated
  have place : s.records = (before ++ (it :: later).flatMap Iteration.records) ++
      ending :: after := by
    rw [keeps.records, List.append_assoc]
  have opens : s.records = before ++ it.entry :: ((it.further ++ [it.marker]) ++
      (later.flatMap Iteration.records ++ ending :: after)) := by
    rw [keeps.records]
    simp [Iteration.records]
  have finish := position?_of_split compiled.distinct place
  rw [keeps.ending_id] at finish
  have only := compiled.linked.filter_loops opens annotated rfl finish keeps.others
  exact ⟨_, before, it :: later, ending, after, only, rfl, rfl, keeps.records, keeps.iterations,
    keeps.ending_marker, keeps.ending_id, rfl, rfl⟩

/-- Every loop that a record speaks of has a block with an iteration. -/
theorem described_of_drafted : s.Described := by
  have listed {j : Nat} {r : Record} (member : r ∈ s.records)
      (passes : ∀ h, r.Of h → (∃ e, h.directives.loopEntry = some e ∧ e.loopIndex = j) ∨
        ∃ i, LoopMarker.ofId? h.id = some (.continuation j i)) :
      ∃ loop ∈ s.loops, loop.index = j := by
    obtain ⟨h, declared, taken⟩ := drafted.exists_head r member
    obtain ⟨k, b, header, block, same, shape, some⟩ :=
      expands.exists_block declared (passes h taken)
    have numbered : LoopHeader.Of ⟨k, header.bound, header.maximum⟩ b :=
      ⟨shape.bound, shape.maximum⟩
    obtain ⟨loop, before, its, ending, after, works⟩ :=
      exists_works compiled expands drafted block numbered rfl some
    have inside : loop ∈ s.loops.filter (·.index == k) := by
      rw [works.only]
      exact List.mem_singleton_self loop
    obtain ⟨known, index⟩ := List.mem_filter.1 inside
    exact ⟨loop, known, by rw [beq_iff_eq.1 index, same, Nat.zero_add]⟩
  constructor
  · intro r member e annotated
    apply listed member
    intro h taken
    exact .inl ⟨e, taken.loopEntry.symm.trans annotated, rfl⟩
  · intro r member index i marked
    apply listed member
    intro h taken
    refine .inr ⟨i, ?_⟩
    rw [← taken.id_eq]
    exact compiled.marker member marked

end Loops

/-- A block without an iteration inside a line, and one of two iterations. Its copies open with a
grid and have another one, with a row that is called like the first, and a question. -/
def tripText : String :=
  "[N]\nWhere to? <loop bound=N max=0>\n[Z]\n</loop>\n<loop bound=N max=2>\n" ++
    "|grid G||How was it?|R=food|1=bad|2=good|\n|grid H||And?|G=again|1=no|\n" ++
    "[Q]\n(1) yes\n</loop>\n[END]"

def tripBlock : LoopBlock :=
  ⟨" bound=N max=2".toList, ("\n|grid G||How was it?|R=food|1=bad|2=good|\n" ++
    "|grid H||And?|G=again|1=no|\n[Q]\n(1) yes\n").toList⟩

theorem tripBlock_regular : tripBlock.Regular 0 1 "[N]\nWhere to? [__ENDLOOP_0]\n\n".toList := by
  have count : tripBlock.count = 2 := by decide +kernel
  constructor
  · rw [count]
    decide
  · intro source given
    have named : tripBlock.attribute? "bound" = some "N" := by decide +kernel
    obtain rfl := Option.some.inj (named.symm.trans given)
    decide
  · have opens : ∀ i < 2, ∃ cut ∈ opening? (tripBlock.copy (i + 1)),
        OpensWith (tripBlock.copy (i + 1)) cut.1 cut.2 := by decide +kernel
    intro i below
    obtain ⟨cut, -, opens⟩ := opens i (count ▸ below)
    exact ⟨cut.1, cut.2, opens⟩
  · refine ⟨"[N]\nWhere to? [__ENDLOOP_0]\n\n\n".toList, [], ?_, ?_, blanks_nil, ?_, ?_⟩
    · decide +kernel
    · exact endsLine_concat "[N]\nWhere to? [__ENDLOOP_0]\n\n".toList
    · decide +kernel
    · decide +kernel

theorem exists_find? {cs before attributes body rest : List Char}
    (cut : (LoopBlock.find? cs).map (fun found =>
      (found.1, found.2.1.attributes, found.2.1.body, found.2.2)) =
        some (before, attributes, body, rest)) :
    LoopBlock.find? cs = some (before, ⟨attributes, body⟩, rest) := by
  obtain ⟨⟨before, ⟨attributes, body⟩, rest⟩, found, same⟩ := Option.map_eq_some_iff.1 cut
  simp only [Prod.mk.injEq] at same
  obtain ⟨rfl, rfl, rfl, rfl⟩ := same
  exact found

theorem regular_trip : Regular 0 0 [] (stripComments tripText).toList := by
  rw [stripComments, String.toList_ofList]
  have first : LoopBlock.find? ((lines tripText.toList).flatMap withoutComment) =
      some ("[N]\nWhere to? ".toList,
        ⟨" bound=N max=0".toList, "\n[Z]\n".toList⟩,
        '\n' :: (tripBlock.toChars ++ "\n[END]".toList)) :=
    exists_find? (by decide +kernel)
  have second : LoopBlock.find? ('\n' :: (tripBlock.toChars ++ "\n[END]".toList)) =
      some (['\n'], tripBlock, "\n[END]".toList) :=
    exists_find? (by decide +kernel)
  have none : (LoopBlock.find? "\n[END]".toList).isNone = true := by decide +kernel
  have lead : [] ++ "[N]\nWhere to? ".toList ++ markerLine (.endOfLoop 0) ++ ['\n'] =
      "[N]\nWhere to? [__ENDLOOP_0]\n\n".toList := by decide +kernel
  refine .empty first (by decide +kernel) (.block second ?_ (.done ?_ ?_))
  · rw [lead]
    exact tripBlock_regular
  · exact Option.isNone_iff_eq_none.1 none
  · decide +kernel

/-- A loop whose first question is declared before it: the question has no record in the loop. -/
def repeatedText : String :=
  "[A]\n<loop bound=A max=1>\n[Q]\n</loop>\n<loop bound=A max=1>\n[Q]\n</loop>"

end Survey

end Questionnaire
