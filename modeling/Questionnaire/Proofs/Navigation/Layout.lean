import Mathlib.Data.List.Nodup
import Mathlib.Data.List.Pairwise
import Questionnaire.Proofs.Navigation.LoopBound

/-! Surveys as loop expansion lays them out: questions outside of loops, and loops whose
iterations stand behind each other, each closed by its marker, with the end marker behind
the last one. The layout alone says which loop and which iteration a record stands in. -/
namespace Questionnaire

structure Iteration where
  /-- The first question, which carries the annotation. -/
  entry : Record
  further : List Record
  marker : Record

inductive Block where
  | question (r : Record)
  | repeated (loop : Loop) (iterations : List Iteration) (finish : Record)

/-- A record with the loop and the iteration that it stands in. -/
structure Place where
  record : Record
  iteration : Option (Loop × Nat) := none

def Iteration.places (loop : Loop) (i : Nat) (it : Iteration) : List Place :=
  ⟨it.entry, some (loop, i)⟩ ::
    (it.further.map (⟨·, some (loop, i)⟩) ++ [⟨it.marker, some (loop, i)⟩])

/-- The places of iterations that are numbered from `first` on. -/
def iterationPlaces (loop : Loop) (first : Nat) (iterations : List Iteration) : List Place :=
  (iterations.zipIdx first).flatMap fun (it, i) => it.places loop i

def Block.places : Block → List Place
  | question r => [⟨r, none⟩]
  | repeated loop iterations finish => iterationPlaces loop 1 iterations ++ [⟨finish, none⟩]

/-- A record that is neither a marker nor annotated. -/
structure Record.IsPlain (r : Record) : Prop where
  unmarked : r.marker? = none
  bare : r.directives.loopEntry = none

/-- An iteration as expansion writes it. -/
structure Iteration.Expanded (loop : Loop) (i : Nat) (it : Iteration) : Prop where
  unmarked : it.entry.marker? = none
  annotated : ∃ e, it.entry.directives.loopEntry = some e ∧ e.loopIndex = loop.index ∧
    e.iteration = i
  entry_id : it.entry.id = loop.iterationEntry i
  further : ∀ r ∈ it.further, r.IsPlain
  marker : it.marker.marker? = some (.continuation loop.index i)
  marker_bare : it.marker.directives.loopEntry = none

/-- A loop as expansion writes it. Iterations are counted in words of thirty-two bits, in
which the last iteration has a successor. -/
structure Loop.Expanded (s : Survey) (loop : Loop) (iterations : List Iteration)
    (finish : Record) : Prop where
  described : iterations ≠ [] → loop ∈ s.loops
  maximum : iterations.length = loop.maximum
  counted : loop.maximum < Text.largestUInt32
  expanded : ∀ it i, (it, i) ∈ iterations.zipIdx 1 → it.Expanded loop i
  finish_id : finish.id = LoopMarker.id (.endOfLoop loop.index)
  finish_marker : finish.marker? = some (.endOfLoop loop.index)
  finish_bare : finish.directives.loopEntry = none

def Block.Expanded (s : Survey) : Block → Prop
  | question r => r.IsPlain
  | repeated loop iterations finish => loop.Expanded s iterations finish

structure Survey.LaidOut (s : Survey) (blocks : List Block) : Prop where
  records : s.records = (blocks.flatMap Block.places).map Place.record
  expanded : ∀ b ∈ blocks, b.Expanded s

theorem iterationPlaces_cons (loop : Loop) (first : Nat) (it : Iteration) (its : List Iteration) :
    iterationPlaces loop first (it :: its) =
      it.places loop first ++ iterationPlaces loop (first + 1) its := by
  rw [iterationPlaces, List.zipIdx_cons, List.flatMap_cons]
  rfl

theorem Iteration.places_iteration {loop : Loop} {i : Nat} {it : Iteration} {p : Place}
    (member : p ∈ it.places loop i) : p.iteration = some (loop, i) := by
  simp only [places, List.mem_cons, List.mem_append, List.mem_map, List.not_mem_nil,
    or_false] at member
  rcases member with rfl | ⟨_, -, rfl⟩ | rfl <;> rfl

theorem iterationPlaces_iteration {loop : Loop} {first : Nat} {its : List Iteration} {p : Place}
    (member : p ∈ iterationPlaces loop first its) :
    ∃ i, first ≤ i ∧ p.iteration = some (loop, i) := by
  obtain ⟨⟨it, i⟩, listed, member⟩ := List.mem_flatMap.1 member
  exact ⟨i, (List.mem_zipIdx listed).1, Iteration.places_iteration member⟩

namespace Survey
variable {s : Survey} {blocks : List Block}

/-- An annotated record is the entry of an iteration of an expanded loop. -/
theorem LaidOut.annotated (layout : s.LaidOut blocks) {r : Record} (member : r ∈ s.records)
    {e : LoopEntry} (annotated : r.directives.loopEntry = some e) :
    ∃ loop its finish it, .repeated loop its finish ∈ blocks ∧ loop.Expanded s its finish ∧
      (it, e.iteration) ∈ its.zipIdx 1 ∧ r = it.entry ∧ loop.index = e.loopIndex := by
  rw [layout.records] at member
  obtain ⟨p, placed, rfl⟩ := List.mem_map.1 member
  obtain ⟨b, listed, member⟩ := List.mem_flatMap.1 placed
  have expanded := layout.expanded b listed
  cases b with
  | question r =>
    obtain rfl := List.mem_singleton.1 member
    rw [Block.Expanded.eq_1] at expanded
    rw [expanded.bare] at annotated
    contradiction
  | repeated loop its finish =>
    rcases List.mem_append.1 member with inside | last
    · obtain ⟨⟨it, i⟩, numbered, inside⟩ := List.mem_flatMap.1 inside
      have written := expanded.expanded it i numbered
      simp only [Iteration.places, List.mem_cons, List.mem_append, List.mem_map,
        List.not_mem_nil, or_false] at inside
      rcases inside with rfl | ⟨r, further, rfl⟩ | rfl
      · obtain ⟨same, entry, index, rfl⟩ := written.annotated
        obtain rfl := Option.some.inj (entry.symm.trans annotated)
        exact ⟨loop, its, finish, it, listed, expanded, numbered, rfl, index.symm⟩
      · rw [(written.further r further).bare] at annotated
        contradiction
      · rw [written.marker_bare] at annotated
        contradiction
    · obtain rfl := List.mem_singleton.1 last
      rw [expanded.finish_bare] at annotated
      contradiction

/-- Blocks that share a record are one block. -/
theorem LaidOut.block_eq (layout : s.LaidOut blocks) (distinct : (s.records.map Record.id).Nodup)
    {a b : Block} (left : a ∈ blocks) (right : b ∈ blocks) {p q : Place}
    (inLeft : p ∈ a.places) (inRight : q ∈ b.places) (same : p.record.id = q.record.id) :
    a = b := by
  rw [layout.records, List.map_map, List.map_flatMap, List.nodup_flatMap] at distinct
  have symmetric : Std.Symm (Function.onFun List.Disjoint fun block : Block =>
      block.places.map (Record.id ∘ Place.record)) := ⟨fun _ _ apart _ left right => apart right left⟩
  by_contra different
  have apart := distinct.2.forall left right different
  have shared : p.record.id ∈ b.places.map (Record.id ∘ Place.record) :=
    List.mem_map.2 ⟨q, inRight, same.symm⟩
  exact apart (List.mem_map.2 ⟨p, inLeft, rfl⟩) shared

/-- No two loops of a laid out survey share an index. -/
theorem LaidOut.loops_unique (layout : s.LaidOut blocks) (linked : s.Linked)
    (distinct : (s.records.map Record.id).Nodup) :
    ∀ l ∈ s.loops, ∀ m ∈ s.loops, l.index = m.index → l = m := by
  intro l left m right same
  obtain ⟨i, r, e, lastLeft, atLeft, annotatedLeft, firstLeft, foundLeft, rfl⟩ :=
    linked.mem_loops left
  obtain ⟨j, r', e', lastRight, atRight, annotatedRight, firstRight, foundRight, rfl⟩ :=
    linked.mem_loops right
  obtain ⟨loop, its, finish, it, listed, expanded, numbered, rfl, index⟩ :=
    layout.annotated (List.mem_of_getElem? atLeft) annotatedLeft
  obtain ⟨loop', its', finish', it', listed', expanded', numbered', rfl, index'⟩ :=
    layout.annotated (List.mem_of_getElem? atRight) annotatedRight
  change e.loopIndex = e'.loopIndex at same
  -- Loops of one index end at one marker, which stands in one block only.
  have finishes : finish.id = finish'.id := by
    rw [expanded.finish_id, expanded'.finish_id, index, index', same]
  have sameBlock := layout.block_eq distinct listed listed'
    (p := ⟨finish, none⟩) (q := ⟨finish', none⟩) (by simp [Block.places])
    (by simp [Block.places]) finishes
  cases sameBlock
  rw [firstLeft] at numbered
  rw [firstRight] at numbered'
  have sameEntry : it = it' := by
    have first := (List.mem_zipIdx_iff_le_and_getElem?_sub.1 numbered).2
    have first' := (List.mem_zipIdx_iff_le_and_getElem?_sub.1 numbered').2
    exact Option.some.inj (first.symm.trans first')
  subst sameEntry
  obtain rfl := Option.some.inj (annotatedLeft.symm.trans annotatedRight)
  obtain rfl := Option.some.inj (foundLeft.symm.trans foundRight)
  have samePosition : i = j := by
    have unique := List.Nodup.of_map _ distinct
    exact (List.getElem?_inj (List.getElem?_eq_some_iff.1 atLeft).1 unique).1
      (atLeft.trans atRight.symm)
  subst samePosition
  rfl

end Survey

end Questionnaire
