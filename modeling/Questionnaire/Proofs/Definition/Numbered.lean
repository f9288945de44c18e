import Questionnaire.Proofs.Definition.Unrolled

/-! The numbers of loops in an unrolled text. Annotations and markers with the number of a block
stand among its copies and nowhere else, and no marker comes up twice. -/
namespace Questionnaire

open Text

/-- The loop that a marker belongs to. -/
def LoopMarker.loop : LoopMarker → Nat
  | continuation index _ => index
  | endOfLoop index => index

/-- A header opens an iteration of a loop or is one of its markers. -/
inductive Head.Concerns (h : Head) : Nat → Prop
  | entry {e : LoopEntry} (annotated : h.directives.loopEntry = some e) : h.Concerns e.loopIndex
  | marker {m : LoopMarker} (marked : LoopMarker.ofId? h.id = some m) : h.Concerns m.loop

namespace Definition

/-- Idle headers concern only the blocks that they end. -/
theorem Idle.concerns {first index : Nat} {hs : List Head} (idle : Idle first index hs) :
    ∀ h ∈ hs, ∀ k, h.Concerns k → first ≤ k ∧ k < index := by
  intro h member k concerns
  cases concerns with
  | entry annotated =>
    rw [idle.unannotated h member] at annotated
    contradiction
  | marker marked =>
    obtain ⟨j, below, least, rfl⟩ := idle.ends h member _ marked
    exact ⟨least, below⟩

section Iteration
variable {loop : LoopHeader} {i : Nat} {copy : List Char} {hs : List Head}

theorem Iterates.concerns (iterates : Iterates loop i copy hs)
    (fits : (LoopMarker.continuation loop.index i).Fits) :
    ∀ h ∈ hs, ∀ k, h.Concerns k → k = loop.index := by
  obtain ⟨annotated, -, unannotated, unmarked⟩ := iterates
  intro h member k concerns
  rw [List.mem_append, List.mem_singleton] at member
  rcases member with inside | rfl
  · cases concerns with
    | entry entry =>
      rcases List.mem_cons.1 inside with rfl | later
      · rw [annotated.entry] at entry
        cases entry
        rfl
      · rw [unannotated h later] at entry
        contradiction
    | marker marked =>
      rw [unmarked h inside] at marked
      contradiction
  · cases concerns with
    | entry entry => contradiction
    | marker marked =>
      rw [LoopMarker.head, LoopMarker.ofId?_id fits] at marked
      cases marked
      rfl

theorem Iterates.markers (iterates : Iterates loop i copy hs)
    (fits : (LoopMarker.continuation loop.index i).Fits) :
    hs.filterMap (LoopMarker.ofId? ·.id) = [.continuation loop.index i] := by
  obtain ⟨-, -, -, unmarked⟩ := iterates
  have last : LoopMarker.ofId? (LoopMarker.continuation loop.index i).head.id =
      some (.continuation loop.index i) := LoopMarker.ofId?_id fits
  rw [List.filterMap_append, List.filterMap_eq_nil_iff.2 unmarked, List.filterMap_cons, last]
  rfl

end Iteration

section Block
variable {loop : LoopHeader} {b : LoopBlock} {is : List Nat} {hss : List (List Head)}

theorem concerns_flatten
    (iterations : List.Forall₂ (fun i hs => Iterates loop (i + 1) (b.copy (i + 1)) hs) is hss)
    (fits : ∀ i ∈ is, (LoopMarker.continuation loop.index (i + 1)).Fits) :
    ∀ h ∈ hss.flatten, ∀ k, h.Concerns k → k = loop.index := by
  induction iterations with
  | nil =>
    intro h member
    cases member
  | cons iterates _ ih =>
    obtain ⟨fit, fits⟩ := List.forall_mem_cons.1 fits
    intro h member
    rcases List.mem_append.1 member with first | later
    · exact iterates.concerns fit h first
    · exact ih fits h later

theorem markers_flatten
    (iterations : List.Forall₂ (fun i hs => Iterates loop (i + 1) (b.copy (i + 1)) hs) is hss)
    (fits : ∀ i ∈ is, (LoopMarker.continuation loop.index (i + 1)).Fits) :
    hss.flatten.filterMap (LoopMarker.ofId? ·.id) =
      is.map fun i => .continuation loop.index (i + 1) := by
  induction iterations with
  | nil => rfl
  | cons iterates _ ih =>
    obtain ⟨fit, fits⟩ := List.forall_mem_cons.1 fits
    rw [List.flatten_cons, List.filterMap_append, iterates.markers fit, ih fits]
    rfl

theorem concerns_finish {index k : Nat} (fits : index ≤ largestUInt64)
    (concerns : (LoopMarker.endOfLoop index).head.Concerns k) : k = index := by
  cases concerns with
  | entry annotated => contradiction
  | marker marked =>
    rw [LoopMarker.head, LoopMarker.ofId?_id (m := .endOfLoop index) fits] at marked
    cases marked
    rfl

theorem LoopHeader.Of.eq {other : LoopHeader} (header : loop.Of b) (again : other.Of b)
    (index : loop.index = other.index) : loop = other := by
  have bound := Option.some.inj (header.bound.symm.trans again.bound)
  have maximum := Option.some.inj (header.maximum.symm.trans again.maximum)
  cases loop
  cases other
  simp_all

theorem LoopHeader.Of.fits (header : loop.Of b) (index : loop.index ≤ largestUInt64) :
    ∀ i ∈ List.range loop.maximum, (LoopMarker.continuation loop.index (i + 1)).Fits := by
  intro i inside
  exact ⟨index, Nat.le_trans (List.mem_range.1 inside) header.maximum_le⟩

end Block

/-! ### Markers of blocks -/

/-- The markers of a block, in their order. -/
def blockMarkers (index maximum : Nat) : List LoopMarker :=
  (List.range maximum).map (fun i => .continuation index (i + 1)) ++ [.endOfLoop index]

theorem loop_blockMarkers (index maximum : Nat) :
    ∀ m ∈ blockMarkers index maximum, m.loop = index := by
  intro m member
  rcases List.mem_append.1 member with inside | last
  · obtain ⟨i, -, rfl⟩ := List.mem_map.1 inside
    rfl
  · rw [List.mem_singleton.1 last]
    rfl

theorem blockMarkers_nodup (index maximum : Nat) : (blockMarkers index maximum).Nodup := by
  refine List.nodup_append.2 ⟨?_, List.nodup_singleton _, ?_⟩
  · apply List.Nodup.map _ List.nodup_range
    intro i j same
    cases same
    rfl
  · intro m inside n last same
    obtain ⟨i, -, rfl⟩ := List.mem_map.1 inside
    rw [List.mem_singleton.1 last] at same
    contradiction

/-- Markers of lower loops and markers of higher ones are different. -/
theorem nodup_append_of_loop {ms ns : List LoopMarker} {index : Nat} (left : ms.Nodup)
    (right : ns.Nodup) (below : ∀ m ∈ ms, m.loop < index) (above : ∀ m ∈ ns, index ≤ m.loop) :
    (ms ++ ns).Nodup := by
  refine List.nodup_append.2 ⟨left, right, ?_⟩
  rintro m front _ behind rfl
  exact Nat.not_le_of_lt (below m front) (above m behind)

namespace Expands
variable {first index : Nat} {blocks : List LoopBlock} {hs : List Head}

theorem le_concerns (expands : Expands first index blocks hs) (ordered : first ≤ index) :
    ∀ h ∈ hs, ∀ k, h.Concerns k → first ≤ k := by
  induction expands with
  | done idle =>
    intro h member k concerns
    exact (idle.concerns h member k concerns).1
  | empty _ _ ih => exact ih (Nat.le_succ_of_le ordered)
  | @block first index b blocks before after hss loop header _ numbered fits idle iterations _ ih =>
    intro h member k concerns
    rw [List.mem_append, List.mem_append, List.mem_cons] at member
    rcases member with early | inside | rfl | later
    · exact (idle.concerns h early k concerns).1
    · rw [concerns_flatten iterations (header.fits (numbered ▸ fits)) h inside k concerns, numbered]
      exact ordered
    · rwa [concerns_finish fits concerns]
    · exact ordered.trans (Nat.le_of_succ_le (ih (Nat.le_refl _) h later k concerns))

/-- A block of the text with an iteration and its headers: nothing in front of them or behind
them concerns it. -/
theorem at_block (expands : Expands first index blocks hs) {k : Nat} {b : LoopBlock}
    (listed : blocks[k]? = some b) (iterated : 0 < b.count) :
    ∃ before after hss, ∃ loop : LoopHeader, loop.Of b ∧
      loop.index = index + k ∧ index + k ≤ largestUInt64 ∧
      List.Forall₂ (fun i hs => Iterates loop (i + 1) (b.copy (i + 1)) hs)
        (List.range loop.maximum) hss ∧
      hs = before ++ (hss.flatten ++ (LoopMarker.endOfLoop (index + k)).head :: after) ∧
      ∀ h ∈ before ++ after, ¬h.Concerns (index + k) := by
  induction expands generalizing k with
  | done idle => contradiction
  | @empty first index b' blocks hs none _ ih =>
    cases k with
    | zero =>
      obtain rfl := Option.some.inj listed
      omega
    | succ k =>
      have shift : index + 1 + k = index + (k + 1) := by omega
      rw [← shift]
      exact ih listed
  | @block first index b' blocks before after hss loop header _ numbered fits idle iterations
      further ih =>
    cases k with
    | zero =>
      obtain rfl := Option.some.inj listed
      refine ⟨before, after, hss, loop, header, numbered, fits, iterations, rfl, ?_⟩
      intro h member concerns
      rcases List.mem_append.1 member with early | later
      · exact Nat.lt_irrefl _ (idle.concerns h early _ concerns).2
      · have least := further.le_concerns (Nat.le_refl _) h later _ concerns
        omega
    | succ k =>
      obtain ⟨before', after', hss', loop', header', numbered', fits', iterations', whole, apart⟩ :=
        ih listed
      have shift : index + 1 + k = index + (k + 1) := by omega
      rw [shift] at numbered' fits' whole apart
      refine ⟨before ++ (hss.flatten ++ (LoopMarker.endOfLoop index).head :: before'), after', hss',
        loop', header', numbered', fits', iterations', ?_, ?_⟩
      · rw [whole]
        simp
      · intro h member concerns
        simp only [List.mem_append, List.mem_cons] at member
        rcases member with (early | inside | rfl | later) | last
        · have below := (idle.concerns h early _ concerns).2
          omega
        · have same :=
            concerns_flatten iterations (header.fits (numbered ▸ fits)) h inside _ concerns
          omega
        · have same := concerns_finish fits concerns
          omega
        · exact apart h (List.mem_append_left _ later) concerns
        · exact apart h (List.mem_append_right _ last) concerns

/-- No marker comes up twice. -/
theorem markers_nodup (expands : Expands first index blocks hs) :
    (hs.filterMap (LoopMarker.ofId? ·.id)).Nodup := by
  induction expands with
  | done idle => exact idle.once
  | empty _ _ ih => exact ih
  | @block first index b blocks before after hss loop header _ numbered fits idle iterations
      further ih =>
    have ending : LoopMarker.ofId? (LoopMarker.endOfLoop index).head.id = some (.endOfLoop index) :=
      LoopMarker.ofId?_id (m := .endOfLoop index) fits
    have whole : (before ++ (hss.flatten ++ (LoopMarker.endOfLoop index).head :: after)).filterMap
        (LoopMarker.ofId? ·.id) = before.filterMap (LoopMarker.ofId? ·.id) ++
          (blockMarkers index loop.maximum ++ after.filterMap (LoopMarker.ofId? ·.id)) := by
      rw [List.filterMap_append, List.filterMap_append,
        markers_flatten iterations (header.fits (numbered ▸ fits)), List.filterMap_cons, ending,
        numbered, blockMarkers, List.append_assoc]
      rfl
    have early : ∀ m ∈ before.filterMap (LoopMarker.ofId? ·.id), m.loop < index := by
      intro m member
      obtain ⟨h, inside, marked⟩ := List.mem_filterMap.1 member
      exact (idle.concerns h inside _ (.marker marked)).2
    have later : ∀ m ∈ after.filterMap (LoopMarker.ofId? ·.id), index + 1 ≤ m.loop := by
      intro m member
      obtain ⟨h, inside, marked⟩ := List.mem_filterMap.1 member
      exact further.le_concerns (Nat.le_refl _) h inside _ (.marker marked)
    have own := loop_blockMarkers index loop.maximum
    rw [whole]
    apply nodup_append_of_loop idle.once _ early
    · intro m member
      rcases List.mem_append.1 member with inside | behind
      · exact Nat.le_of_eq (own m inside).symm
      · exact Nat.le_of_succ_le (later m behind)
    · apply nodup_append_of_loop (blockMarkers_nodup index loop.maximum) ih _ later
      intro m member
      exact Nat.lt_succ_of_le (Nat.le_of_eq (own m member))

/-- A header that opens an iteration or ends one stands among the copies of a block. -/
theorem exists_block (expands : Expands first index blocks hs) {h : Head} (member : h ∈ hs)
    {j : Nat} (passes : (∃ e, h.directives.loopEntry = some e ∧ e.loopIndex = j) ∨
      ∃ i, LoopMarker.ofId? h.id = some (.continuation j i)) :
    ∃ k b, ∃ loop : LoopHeader, blocks[k]? = some b ∧ j = index + k ∧ loop.Of b ∧
      1 ≤ loop.maximum := by
  have concerns : h.Concerns j := by
    rcases passes with ⟨e, annotated, rfl⟩ | ⟨i, marked⟩
    · exact .entry annotated
    · exact .marker marked
  have busy {first index : Nat} {hs : List Head} (idle : Idle first index hs) : h ∉ hs := by
    intro inside
    rcases passes with ⟨e, annotated, -⟩ | ⟨i, marked⟩
    · rw [idle.unannotated h inside] at annotated
      contradiction
    · obtain ⟨k, -, -, same⟩ := idle.ends h inside _ marked
      contradiction
  induction expands with
  | done idle => exact absurd member (busy idle)
  | empty _ _ ih =>
    obtain ⟨k, b, loop, listed, same, header, some⟩ := ih member
    exact ⟨k + 1, b, loop, listed, by omega, header, some⟩
  | @block first index b blocks before after hss loop header iterated numbered fits idle iterations
      _ ih =>
    rw [List.mem_append, List.mem_append, List.mem_cons] at member
    rcases member with early | inside | rfl | later
    · exact absurd early (busy idle)
    · have same := concerns_flatten iterations (header.fits (numbered ▸ fits)) h inside j concerns
      exact ⟨0, b, loop, rfl, same.trans numbered, header, header.count ▸ iterated⟩
    · rcases passes with ⟨e, annotated, -⟩ | ⟨i, marked⟩
      · contradiction
      · rw [LoopMarker.head, LoopMarker.ofId?_id (m := .endOfLoop index) fits] at marked
        cases marked
    · obtain ⟨k, b', loop', listed, same, header', some⟩ := ih later
      exact ⟨k + 1, b', loop', listed, by omega, header', some⟩

end Expands

end Definition

end Questionnaire
