import Questionnaire.Proofs.Navigation.Trail

/-! The course of a navigator: moves in any order, with other answers before each of them.
Whatever the moves, the visit that was made last is one of a question and has kept the
present queue, and no loop holds a bound above its maximum. -/
namespace Questionnaire

/-- No identifier of a marker is declared: what carries one is a marker as expansion writes
it. -/
def Survey.Unreserved (s : Survey) : Prop :=
  ∀ r ∈ s.records, ∀ m ∈ LoopMarker.ofId? r.id, r.marker? = some m ∧ r.directives = {}

instance (s : Survey) : Decidable s.Unreserved :=
  inferInstanceAs (Decidable (∀ r ∈ s.records, ∀ m ∈ LoopMarker.ofId? r.id, _))

/-- The bound read last does not exceed what the definition allows. -/
def Loop.Within (loop : Loop) : Prop := ∀ bound, loop.bound = some bound → bound ≤ loop.maximum

namespace Frame
variable {s : Survey} {f : Frame}

def IsQuestion (s : Survey) (f : Frame) : Prop :=
  ∃ r, s.record? f.id = some r ∧ r.marker? = none

theorem IsQuestion.unmarked (question : f.IsQuestion s) (unreserved : s.Unreserved) :
    LoopMarker.isContinuation f.id = false := by
  obtain ⟨r, found, unmarked⟩ := question
  obtain ⟨member, same⟩ := Survey.mem_of_record? found
  rw [LoopMarker.isContinuation, ← same]
  cases marker : LoopMarker.ofId? r.id with
  | none => rfl
  | some m =>
    rw [(unreserved r member m marker).1] at unmarked
    contradiction

theorem IsPassage.marked (passage : f.IsPassage s) (compiled : s.Compiled) :
    LoopMarker.isContinuation f.id = true := by
  obtain ⟨r, index, i, found, marked⟩ := passage
  obtain ⟨member, same⟩ := Survey.mem_of_record? found
  rw [LoopMarker.isContinuation, ← same, compiled.marker member marked]

end Frame

/-- What a navigator can be asked for, with what it looks at. -/
inductive Move where
  | start (evaluator : Evaluator) (source : Source)
  | next (evaluator : Evaluator) (source : Source)
  | back
  | refreshBounds (question : String) (source : Source)

namespace Navigator
variable {s : Survey} {env : Surroundings} {n m passed : Navigator} {id : String} {r : Record}

def perform (s : Survey) (n : Navigator) : Move → Navigator
  | .start evaluator source => (n.start ⟨s, evaluator, source⟩).2
  | .next evaluator source => (n.next ⟨s, evaluator, source⟩).2
  | .back => n.back.2
  | .refreshBounds question source => n.refreshBounds question source

def run (s : Survey) (n : Navigator) (moves : List Move) : Navigator := moves.foldl (perform s) n

/-- A question that may lead back to itself, in front of one that it repeats. -/
def tourText : String := "[A]\n(1) x -> A\n<loop bound=A max=1>\n[B]\n</loop>\n[END]"

def answering (token answer : String) : Source := fun t =>
  if t = token then some (.text answer) else none

def WithinMaximum (n : Navigator) : Prop := ∀ loop ∈ n.loops, loop.Within

section
variable {source : Source}

theorem setBound_within {index bound : Nat} {loops : List Loop} {loop : Loop}
    (found : loops.find? (·.index == index) = some loop) (least : bound ≤ loop.maximum)
    (within : ∀ l ∈ loops, l.Within) : ∀ l ∈ setBound index bound loops, l.Within := by
  induction loops with
  | nil => exact within
  | cons first rest ih =>
    obtain ⟨here, later⟩ := List.forall_mem_cons.1 within
    rw [List.find?_cons] at found
    unfold setBound
    cases same : first.index == index with
    | true =>
      rw [same] at found
      obtain rfl := Option.some.inj found
      refine List.forall_mem_cons.2 ⟨?_, later⟩
      intro read kept
      cases kept
      exact least
    | false =>
      rw [same] at found
      exact List.forall_mem_cons.2 ⟨here, ih found later⟩

theorem readBound_within {index bound : Nat} {loop : Loop}
    (read : n.readBound source index = .ok (loop, bound, m)) (within : n.WithinMaximum) :
    m.WithinMaximum := by
  obtain ⟨found, accepted, rfl⟩ := readBound_eq_ok read
  exact setBound_within found (Loop.readBound_le accepted) within

theorem refreshLoop_within {loop : Loop} (within : loop.Within) :
    (refreshLoop source loop).Within := by
  unfold refreshLoop
  split
  · next read =>
    intro bound kept
    cases kept
    exact Loop.readBound_le read
  · exact within

theorem WithinMaximum.refreshBounds (question : String) (within : n.WithinMaximum) :
    (n.refreshBounds question source).WithinMaximum := by
  intro l member
  obtain ⟨loop, held, rfl⟩ := List.mem_map.1 member
  split
  · exact refreshLoop_within (within loop held)
  · exact within loop held

end

theorem Enters.within (enters : n.Enters env r m) (within : n.WithinMaximum) :
    m.WithinMaximum := by
  cases enters with
  | bare => exact within
  | running _ read _ => exact readBound_within read within

namespace Walk
variable {w v : Walk}

theorem Takes.within (takes : Takes s w id v) (within : w.navigator.WithinMaximum) :
    v.navigator.WithinMaximum := by
  cases takes <;> exact within

theorem Arrives.within (arrives : Arrives env w id m) (within : w.navigator.WithinMaximum) :
    m.WithinMaximum := by
  induction arrives with
  | here step =>
    cases step with
    | shown candidate _ _ enters _ => exact enters.within (candidate.within within)
  | later step _ ih =>
    apply ih
    cases step with
    | unknown candidate _ => exact candidate.within within
    | finished candidate _ _ => exact candidate.within within
    | repeated candidate _ _ read _ => exact readBound_within read (candidate.within within)
    | left candidate _ _ read _ => exact readBound_within read (candidate.within within)
    | beyond candidate _ _ _ read _ => exact readBound_within read (candidate.within within)
    | hidden candidate _ _ enters _ => exact enters.within (candidate.within within)

end Walk

/-- A history whose visits are those of questions and of the markers between them, the last
one a question with the present queue. -/
structure Recorded (s : Survey) (h : History) : Prop where
  visits : ∀ f ∈ h.visits, f.IsPassage s ∨ f.IsQuestion s
  shown : ∀ f ∈ h.visits.head?, f.IsQuestion s
  queue : ∀ f ∈ h.visits.head?, f.queued = h.upcoming

structure Settled (s : Survey) (n : Navigator) : Prop extends n.OnTrail s where
  serves : n.Serves s
  within : n.WithinMaximum
  recorded : Recorded s n.history

theorem ofSurvey_settled (compiled : s.Compiled) (limits : Limits) :
    (ofSurvey s limits).Settled s where
  toOnTrail := onTrail_ofSurvey s limits
  serves := serves_ofSurvey s limits
  within := by
    intro loop member bound kept
    obtain ⟨_, _, _, _, -, -, -, -, rfl⟩ := compiled.linked.mem_loops member
    cases kept
  recorded := by constructor <;> simp [ofSurvey]

theorem Passes.recorded (passes : n.Passes s passed) (found : s.record? id = some r)
    (unmarked : r.marker? = none) (visits : ∀ f ∈ n.history.visits, f.IsPassage s ∨ f.IsQuestion s) :
    Recorded s (passed.arrive r).history := by
  have here : Frame.IsQuestion s ⟨r.id, passed.history.upcoming⟩ :=
    ⟨r, by rw [(Survey.mem_of_record? found).2, found], unmarked⟩
  obtain ⟨passages, same, marked⟩ := passes.visits
  refine ⟨?_, ?_, ?_⟩
  · intro f member
    rcases List.mem_cons.1 member with rfl | member
    · exact .inr here
    · rw [same] at member
      rcases List.mem_append.1 member with passage | earlier
      · exact .inl (marked f passage)
      · exact visits f earlier
  · intro f member
    cases member
    exact here
  · intro f member
    cases member
    rfl

theorem Recorded.back (recorded : Recorded s n.history) (compiled : s.Compiled) :
    Recorded s n.back.2.history := by
  obtain ⟨f, earlier, dropped, moved⟩ | stayed := back_cases n
  · rw [moved]
    have behind : f :: earlier <:+ n.history.visits := by
      rw [← dropped]
      exact (List.dropWhile_suffix _).trans (List.tail_suffix _)
    have kept : LoopMarker.isContinuation f.id = false := by
      have some : n.history.visits.tail.dropWhile (fun f => LoopMarker.isContinuation f.id) ≠ [] := by
        rw [dropped]
        exact List.cons_ne_nil _ _
      have kept := List.head_dropWhile_not _ some
      simpa only [dropped, List.head_cons] using kept
    refine ⟨fun g member => recorded.visits g (behind.subset member), ?_, ?_⟩
    · intro g member
      cases member
      rcases recorded.visits f (behind.subset List.mem_cons_self) with passage | question
      · rw [passage.marked compiled] at kept
        contradiction
      · exact question
    · intro g member
      cases member
      rfl
  · rwa [stayed]

section
variable (settled : n.Settled s) (compiled : s.Compiled)
include settled compiled

theorem Settled.start (evaluator : Evaluator) (source : Source) :
    (n.start ⟨s, evaluator, source⟩).2.Settled s where
  toOnTrail := settled.toOnTrail.start ⟨s, evaluator, source⟩ compiled
  serves := settled.serves.start _
  within := by
    obtain ⟨id, passed, r, -, -, -, started⟩ | ⟨e, failed⟩ := start_cases n ⟨s, evaluator, source⟩
    · obtain ⟨first, arrives⟩ := start_arrives started
      rw [started]
      exact arrives.within settled.within
    · rw [failed]
      exact settled.within
  recorded := by
    obtain ⟨id, passed, r, passes, found, unmarked, started⟩ | ⟨e, failed⟩ :=
      start_cases n ⟨s, evaluator, source⟩
    · rw [started]
      exact passes.recorded found unmarked fun f member => by cases member
    · rw [failed]
      exact settled.recorded

theorem Settled.next (evaluator : Evaluator) (source : Source) :
    (n.next ⟨s, evaluator, source⟩).2.Settled s where
  toOnTrail := settled.toOnTrail.next ⟨s, evaluator, source⟩ compiled
  serves := settled.serves.next _
  within := by
    obtain ⟨_, _, id, passed, r, -, -, -, -, moved⟩ | stayed | ⟨e, failed⟩ :=
      next_cases n ⟨s, evaluator, source⟩
    · obtain ⟨last, r, -, -, arrives⟩ := next_arrives moved
      rw [moved]
      exact arrives.within settled.within
    · rw [stayed]
      exact settled.within
    · rw [failed]
      exact settled.within
  recorded := by
    obtain ⟨_, _, id, passed, r, -, passes, found, unmarked, moved⟩ | stayed | ⟨e, failed⟩ :=
      next_cases n ⟨s, evaluator, source⟩
    · rw [moved]
      exact passes.recorded found unmarked settled.recorded.visits
    · rw [stayed]
      exact settled.recorded
    · rw [failed]
      exact settled.recorded

theorem Settled.back : n.back.2.Settled s where
  toOnTrail := settled.toOnTrail.back
  serves := settled.serves.back
  within := by
    obtain ⟨_, _, -, moved⟩ | stayed := back_cases n
    · rw [moved]
      exact settled.within
    · rw [stayed]
      exact settled.within
  recorded := settled.recorded.back compiled

theorem Settled.perform (move : Move) : (n.perform s move).Settled s := by
  cases move with
  | start evaluator source => exact settled.start compiled evaluator source
  | next evaluator source => exact settled.next compiled evaluator source
  | back => exact settled.back compiled
  | refreshBounds question source =>
    exact ⟨settled.toOnTrail.refreshBounds question source,
      settled.serves.refreshBounds question source, settled.within.refreshBounds question,
      settled.recorded⟩

theorem Settled.run (moves : List Move) : (n.run s moves).Settled s := by
  induction moves generalizing n with
  | nil => exact settled
  | cons move moves ih => exact ih (settled.perform compiled move)

end

end Navigator

end Questionnaire
