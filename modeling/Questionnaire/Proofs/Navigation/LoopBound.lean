import Questionnaire.Navigation.Navigator
import Questionnaire.Proofs.Survey.Compiled

/-! Loops as a navigator holds them. Reading a bound changes nothing about a loop but
the bound that was last read, so a navigator keeps serving its survey whatever it does. -/
namespace Questionnaire

/-- A loop without the bound last read. -/
def Loop.unread (loop : Loop) : Loop := { loop with bound := none }

namespace Loop
variable {l m : Loop}

/-- What does not look at the bound last read is the same for loops that differ in it. -/
theorem eq_of_unread {α : Type} (view : Loop → α) (blind : ∀ loop, view loop.unread = view loop)
    (same : l.unread = m.unread) : view l = view m := by
  rw [← blind l, same, blind m]

theorem readBound_le {loop : Loop} {source : Source} {bound : Nat}
    (read : loop.readBound source = .ok bound) : bound ≤ loop.maximum := by
  unfold readBound at read
  split at read
  · cases read
    exact Nat.min_le_right _ _
  · contradiction

end Loop

namespace Navigator
variable {n : Navigator} {s : Survey}

/-- The loops are those of a survey, whatever bounds have been read. -/
def Serves (n : Navigator) (s : Survey) : Prop :=
  n.loops.map Loop.unread = s.loops.map Loop.unread

theorem serves_ofSurvey (s : Survey) (limits : Limits) : (ofSurvey s limits).Serves s := rfl

theorem setBound_unread (index bound : Nat) (loops : List Loop) :
    (setBound index bound loops).map Loop.unread = loops.map Loop.unread := by
  induction loops with
  | nil => rfl
  | cons loop rest ih =>
    unfold setBound
    split
    · rfl
    · rw [List.map_cons, List.map_cons, ih]

/-- Keeps a bound for a loop. -/
def withBound (n : Navigator) (index bound : Nat) : Navigator :=
  { n with loops := setBound index bound n.loops }

theorem Serves.withBound (serves : n.Serves s) (index bound : Nat) :
    (n.withBound index bound).Serves s :=
  (setBound_unread index bound n.loops).trans serves

theorem refreshLoop_unread (source : Source) (loop : Loop) :
    (refreshLoop source loop).unread = loop.unread := by
  unfold refreshLoop
  split <;> rfl

theorem Serves.refreshBounds (serves : n.Serves s) (question : String) (source : Source) :
    (n.refreshBounds question source).Serves s := by
  have same : (n.refreshBounds question source).loops.map Loop.unread =
      n.loops.map Loop.unread := by
    rw [Navigator.refreshBounds, List.map_map]
    apply List.map_congr_left
    intro loop _
    simp only [Function.comp_apply]
    split
    · exact refreshLoop_unread source loop
    · rfl
  exact same.trans serves

/-- A look-up by index does not look at the bounds last read. -/
theorem find?_unread {loops others : List Loop}
    (same : loops.map Loop.unread = others.map Loop.unread) (index : Nat) :
    (loops.find? (·.index == index)).map Loop.unread =
      (others.find? (·.index == index)).map Loop.unread := by
  have transport (loops : List Loop) : (loops.map Loop.unread).find? (·.index == index) =
      (loops.find? (·.index == index)).map Loop.unread := List.find?_map
  rw [← transport, same, transport]

/-- A loop of the survey is found by its index, up to the bound last read. -/
theorem Serves.loop? (serves : n.Serves s)
    (unique : ∀ l ∈ s.loops, ∀ m ∈ s.loops, l.index = m.index → l = m)
    {loop : Loop} (member : loop ∈ s.loops) :
    ∃ held, n.loop? loop.index = some held ∧ held.unread = loop.unread := by
  have found : s.loops.find? (·.index == loop.index) = some loop := by
    cases h : s.loops.find? (·.index == loop.index) with
    | none => simpa using List.find?_eq_none.1 h loop member
    | some other =>
      have same : other.index = loop.index := by simpa using List.find?_some h
      rw [unique other (List.mem_of_find?_eq_some h) loop member same]
  have held := find?_unread serves loop.index
  rw [found, Option.map_some] at held
  exact Option.map_eq_some_iff.1 held

theorem Serves.readBound (serves : n.Serves s)
    (unique : ∀ l ∈ s.loops, ∀ m ∈ s.loops, l.index = m.index → l = m)
    {loop : Loop} (member : loop ∈ s.loops) (source : Source) :
    ∃ held, held.unread = loop.unread ∧ n.readBound source loop.index =
      (loop.readBound source).map fun bound => (held, bound, n.withBound loop.index bound) := by
  obtain ⟨held, found, same⟩ := serves.loop? unique member
  refine ⟨held, same, ?_⟩
  have read : held.readBound source = loop.readBound source :=
    Loop.eq_of_unread (·.readBound source) (fun _ => rfl) same
  simp only [Navigator.readBound, found, read]
  cases loop.readBound source <;> rfl

theorem Serves.endMarker? (serves : n.Serves s)
    (unique : ∀ l ∈ s.loops, ∀ m ∈ s.loops, l.index = m.index → l = m)
    {loop : Loop} (member : loop ∈ s.loops) :
    n.endMarker? s loop.index = (s.at? loop.endPosition).map Record.id := by
  obtain ⟨held, found, same⟩ := serves.loop? unique member
  have last : held.endPosition = loop.endPosition :=
    Loop.eq_of_unread Loop.endPosition (fun _ => rfl) same
  rw [Navigator.endMarker?, found, Option.bind_some, last]

end Navigator

namespace Survey
variable {s : Survey}

theorem Linked.mem_loops (linked : s.Linked) {loop : Loop} (member : loop ∈ s.loops) :
    ∃ (position : Nat) (r : Record) (entry : LoopEntry) (last : Nat),
      s.records[position]? = some r ∧ r.directives.loopEntry = some entry ∧
      entry.iteration = 1 ∧
      s.records.findIdx? (·.id == LoopMarker.id (.endOfLoop entry.loopIndex)) = some last ∧
      loop = ⟨entry.loopIndex, position, entry.bound, entry.maximum, none, entry.stem, last⟩ := by
  rw [linked, List.mem_filterMap] at member
  obtain ⟨_, member, rfl⟩ := member
  obtain ⟨position, bound, begins⟩ := List.mem_mapIdx.1 member
  simp only [Draft.loopAt?, Option.bind_eq_bind, Option.bind_eq_some_iff] at begins
  obtain ⟨entry, annotated, last, found, built⟩ := begins
  obtain ⟨annotated, first⟩ := Option.filter_eq_some_iff.1 annotated
  cases built
  exact ⟨position, _, entry, last, List.getElem?_eq_getElem bound, annotated,
    by simpa using first, found, rfl⟩

theorem Linked.at?_endPosition (linked : s.Linked) {loop : Loop} (member : loop ∈ s.loops) :
    (s.at? loop.endPosition).map Record.id = some (LoopMarker.id (.endOfLoop loop.index)) := by
  obtain ⟨_, _, _, last, -, -, -, found, rfl⟩ := linked.mem_loops member
  obtain ⟨bound, same, -⟩ := List.findIdx?_eq_some_iff_getElem.1 found
  rw [at?, List.getElem?_eq_getElem bound, Option.map_some]
  simpa using same

end Survey

end Questionnaire
