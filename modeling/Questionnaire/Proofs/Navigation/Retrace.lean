import Questionnaire.Proofs.Navigation.Course

/-! Stepping back undoes moving on. A move leaves continuation markers and one question on top
of the visits and may use up or fill the queue; stepping back takes off just these and finds
the queue as the question it returns to has kept it. -/
namespace Questionnaire.Navigator
variable {s : Survey} {env : Surroundings} {n m : Navigator} {id : String}

/-- Moves on once for each of the circumstances, if every move shows a question. -/
def advance (s : Survey) (n : Navigator) :
    List (Evaluator × Source) → Option (List String × Navigator)
  | [] => some ([], n)
  | (evaluator, source) :: more =>
    match n.next ⟨s, evaluator, source⟩ with
    | (.ok (some id), m) => (m.advance s more).map fun (shown, m) => (id :: shown, m)
    | (.ok none, _) => none
    | (.error _, _) => none

/-- Steps back a number of times, with what each step returns. -/
def retreat (n : Navigator) : Nat → List (Option String) × Navigator
  | 0 => ([], n)
  | count + 1 =>
    ((n.retreat count).1 ++ [(n.retreat count).2.back.1], (n.retreat count).2.back.2)

theorem back_congr (history : n.history = m.history) (state : n.state = m.state) :
    n.back.1 = m.back.1 ∧ n.back.2.history = m.back.2.history ∧
      n.back.2.state = m.back.2.state := by
  unfold back
  rw [history, state]
  split
  · exact ⟨rfl, history, state⟩
  all_goals
    split
    · exact ⟨rfl, rfl, rfl⟩
    · exact ⟨rfl, history, state⟩

theorem next_current? (moved : n.next env = (.ok (some id), m)) : m.current? = some id := by
  obtain ⟨_, _, id, passed, r, -, -, found, -, next⟩ | stayed | ⟨e, failed⟩ := next_cases n env
  · cases next.symm.trans moved
    rw [← (Survey.mem_of_record? found).2]
    exact shownState_id? r
  · cases stayed.symm.trans moved
  · cases failed.symm.trans moved

section
variable (settled : n.Settled s) (compiled : s.Compiled) (unreserved : s.Unreserved)
include settled compiled unreserved

/-- Stepping back after a move returns to the question that the move left, and to the
history and the state in which it was left. -/
theorem back_next {evaluator : Evaluator} {source : Source}
    (moved : n.next ⟨s, evaluator, source⟩ = (.ok (some id), m)) :
    ∃ last, n.current? = some last ∧ LoopMarker.isContinuation last = false ∧
      m.back.1 = some last ∧ m.back.2.history = n.history ∧ m.back.2.state = n.state := by
  obtain ⟨last, queue, _, passed, r, active, passes, -, -, next⟩ | stayed | ⟨e, failed⟩ :=
    next_cases n ⟨s, evaluator, source⟩
  · cases next.symm.trans moved
    have shown : n.current? = some last := by rw [Navigator.current?, active]; rfl
    obtain ⟨current, -, -, -⟩ := settled.toOnTrail.current? shown
    obtain ⟨f, top, rfl⟩ := Option.map_eq_some_iff.1 current
    have kept : LoopMarker.isContinuation f.id = false :=
      (settled.recorded.shown f top).unmarked unreserved
    have queued : f.queued = n.history.upcoming := settled.recorded.queue f top
    obtain ⟨earlier, visits⟩ := List.head?_eq_some_iff.1 top
    obtain ⟨passages, same, marked⟩ := passes.visits
    -- Above the question that was left there are only continuation markers.
    have dropped : (passed.arrive r).history.visits.tail.dropWhile
        (fun f => LoopMarker.isContinuation f.id) = f :: earlier := by
      change passed.history.visits.dropWhile _ = _
      have same : passed.history.visits = passages ++ n.history.visits := same
      rw [same, visits, List.dropWhile_append_of_pos, List.dropWhile_cons_of_neg]
      · simp [kept]
      · intro g member
        exact (marked g member).marked compiled
    have back : (passed.arrive r).back.1 = some f.id ∧
        (passed.arrive r).back.2.history = ⟨f :: earlier, f.queued⟩ ∧
        (passed.arrive r).back.2.state = .active f.id := by
      have returned : (passed.arrive r).history.back? =
          some (f.id, ⟨f :: earlier, f.queued⟩) := by
        rw [History.back?, dropped]
      have going : (passed.arrive r).state ≠ .idle := by
        intro idle
        have shown := shownState_id? r
        rw [show r.shownState = (passed.arrive r).state from rfl, idle] at shown
        cases shown
      unfold Navigator.back
      split
      · contradiction
      all_goals
        rw [returned]
        exact ⟨rfl, rfl, rfl⟩
    refine ⟨f.id, shown, kept, back.1, ?_, back.2.2.trans active.symm⟩
    rw [back.2.1, queued, ← visits]
  · cases stayed.symm.trans moved
  · cases failed.symm.trans moved

theorem Settled.retraces {circumstances : List (Evaluator × Source)} {shown : List String}
    (moved : n.advance s circumstances = some (shown, m)) :
    (m.retreat circumstances.length).1 = ((n.current?.toList ++ shown).dropLast.reverse).map some ∧
      (m.retreat circumstances.length).2.history = n.history ∧
      (m.retreat circumstances.length).2.state = n.state ∧
      ∀ id ∈ (n.current?.toList ++ shown).dropLast, LoopMarker.isContinuation id = false := by
  induction circumstances generalizing n shown with
  | nil =>
    cases moved
    cases m.current? <;> exact ⟨rfl, rfl, rfl, by simp⟩
  | cons here more ih =>
    obtain ⟨evaluator, source⟩ := here
    unfold advance at moved
    split at moved
    · next id first next =>
      obtain ⟨⟨later, _⟩, further, same⟩ := Option.map_eq_some_iff.1 moved
      cases same
      have settledFirst : first.Settled s := by
        have := settled.next compiled evaluator source
        rwa [next] at this
      obtain ⟨returned, history, state, plain⟩ := ih settledFirst further
      obtain ⟨left, current, unmarked, back⟩ := back_next settled compiled unreserved next
      obtain ⟨congr, congrHistory, congrState⟩ := back_congr history state
      rw [next_current? next] at returned plain
      rw [current]
      change (m.retreat more.length).1 = ((id :: later).dropLast.reverse).map some at returned
      refine ⟨?_, congrHistory.trans back.2.1, congrState.trans back.2.2, ?_⟩
      · change (m.retreat more.length).1 ++ [(m.retreat more.length).2.back.1] =
          ((left :: id :: later).dropLast.reverse).map some
        rw [returned, congr, back.1, List.dropLast_cons_cons, List.reverse_cons, List.map_append]
        rfl
      · change ∀ x ∈ (left :: id :: later).dropLast, _
        rw [List.dropLast_cons_cons]
        exact List.forall_mem_cons.2 ⟨unmarked, plain⟩
    · contradiction
    · contradiction

end

/-- Whatever was asked of a navigator, stepping back as often as it then moves on returns the
questions that it showed before, the last one first, none of them a continuation marker, and
leaves the history with its queues and the state as they were. -/
theorem retreat_advance (compiled : s.Compiled) (unreserved : s.Unreserved) (limits : Limits)
    (moves : List Move) {circumstances : List (Evaluator × Source)} {shown : List String}
    (moved : ((ofSurvey s limits).run s moves).advance s circumstances = some (shown, m)) :
    let n := (ofSurvey s limits).run s moves
    (m.retreat circumstances.length).1 = ((n.current?.toList ++ shown).dropLast.reverse).map some ∧
      (m.retreat circumstances.length).2.history = n.history ∧
      (m.retreat circumstances.length).2.state = n.state ∧
      ∀ id ∈ (n.current?.toList ++ shown).dropLast, LoopMarker.isContinuation id = false :=
  ((ofSurvey_settled compiled limits).run compiled moves).retraces compiled unreserved moved

/-- The first move is the jump back to where it began, and the last one passes a marker. -/
def tour : List (Evaluator × Source) :=
  [({}, answering "choice.A" "1"), ({}, answering "A" "1"), ({}, answering "A" "1")]

theorem retreat_tour : ∃ s m, (Survey.compile {} "tour" tourText).toOption = some s ∧
    ((ofSurvey s {}).run s [.start {} fun _ => none]).advance s tour =
      some (["A", "B_1_1", "END"], m) ∧
    (m.retreat 3).1 = [some "B_1_1", some "A", some "A"] := by
  have toured : (Survey.compile {} "tour" tourText).toOption.map (fun s =>
      let n := (ofSurvey s {}).run s [.start {} fun _ => none]
      (decide s.Unreserved, n.current?, (n.advance s tour).map Prod.fst)) =
      some (true, some "A", some ["A", "B_1_1", "END"]) := by
    decide +kernel
  obtain ⟨s, accepted, toured⟩ := Option.map_eq_some_iff.1 toured
  simp only [Prod.mk.injEq, decide_eq_true_eq] at toured
  obtain ⟨unreserved, current, toured⟩ := toured
  obtain ⟨⟨shown, m⟩, moved, rfl⟩ := Option.map_eq_some_iff.1 toured
  have returned := retreat_advance (Survey.compiled_of_toOption accepted) unreserved {} _ moved
  refine ⟨s, m, accepted, moved, returned.1.trans ?_⟩
  rw [current]
  rfl

end Questionnaire.Navigator
